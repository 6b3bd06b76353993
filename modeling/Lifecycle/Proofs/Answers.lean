import Lifecycle.Proofs.Account
import Lifecycle.Proofs.Growth
import Lifecycle.Proofs.Replay

/-! What callers are told is borne out by the journal: what was published for them, or that the
history or the sink broke down. -/

namespace Lifecycle

def Dispatcher.BreaksWith (d : Dispatcher) (payload : Payload) : Prop :=
  (∃ k, d.ledger.breaks k = some payload) ∨ ∃ k, d.telemetry.breaks k = some payload

theorem Dispatcher.Unbroken.never {d : Dispatcher} (h : d.Unbroken) (payload : Payload) :
    ¬ d.BreaksWith payload := by
  rintro (⟨k, breaks⟩ | ⟨k, breaks⟩)
  · simp [h.1 k] at breaks
  · simp [h.2 k] at breaks

/-- The call's dispatch of the command was published, and then its record broke down. -/
structure Loses (d : Dispatcher) (j : List Note) (call : Nat) (command : Command)
    (payload : Payload) : Prop where
  published : ∃ outcome result status, .committed call outcome result status ∈ j ∧
    result.command = command
  breaks : d.BreaksWith payload

def abortedResult (seen : State) (command : Command) (payload : Payload) : Result :=
  .failed command seen seen (.handlerFailure command (Machine.abortMessage command payload))

/-- Why a caller may be told something. -/
inductive Warrants (d : Dispatcher) (j : List Note) (call : Nat) : Answer → Prop
  | reply {n a} (mem : n ∈ j) (due : n.reply? = some (call, a)) : Warrants d j call a
  | aborted {seen command payload} (before : seen <+: j)
    (loses : Loses d seen call command payload) :
    Warrants d j call (.aborted (abortedResult (statusAfter d.status seen).state command payload))
  | panicked {payload} (breaks : d.BreaksWith payload) : Warrants d j call .panicked
  | undelivered {e payload} (breaks : d.BreaksWith payload) : Warrants d j call (.undelivered e)

variable {d : Dispatcher} {j : List Note} {call : Nat} {command : Command} {payload : Payload}

theorem Loses.mono (h : Loses d j call command payload) (k : List Note) :
    Loses d (j ++ k) call command payload := by
  obtain ⟨⟨outcome, result, status, mem, same⟩, breaks⟩ := h
  exact ⟨⟨outcome, result, status, List.mem_append_left _ mem, same⟩, breaks⟩

theorem Warrants.mono {a : Answer} (h : Warrants d j call a) (k : List Note) :
    Warrants d (j ++ k) call a := by
  cases h with
  | reply mem due => exact .reply (List.mem_append_left _ mem) due
  | aborted before loses => exact .aborted (before.trans (List.prefix_append ..)) loses
  | panicked breaks => exact .panicked breaks
  | undelivered breaks => exact .undelivered breaks

theorem Warrants.published {a : Answer} (h : Warrants d j call a) (unbroken : d.Unbroken) :
    (∃ outcome r status, .committed call outcome r status ∈ j ∧ a = .result r) ∨
      ∃ status, .arranged call status ∈ j := by
  cases h with
  | @reply n _ mem due =>
    cases n with
    | committed c outcome r status => cases due; exact .inl ⟨outcome, r, status, mem, rfl⟩
    | arranged c status => cases due; exact .inr ⟨status, mem⟩
    | _ => cases due
  | aborted _ loses => exact absurd loses.breaks (unbroken.never _)
  | panicked breaks => exact absurd breaks (unbroken.never _)
  | undelivered breaks => exact absurd breaks (unbroken.never _)

namespace Machine

variable {m m' m'' : Machine} {t : Ticket}

/-- Whatever callers were told has a reason, and so has what the caller of a task is about to be
told, and the death of the worker. -/
structure Warranted (d : Dispatcher) (m : Machine) : Prop where
  answers : ∀ (call : Nat) a, m.calls[call]? = some (.answered a) → Warrants d m.journal call a
  reports : ∀ call command payload, .report call command payload ∈ m.turns →
    Loses d m.journal call command payload
  gone : m.channel.worker = .gone → ∃ payload, d.BreaksWith payload

inductive Due (d : Dispatcher) (j : List Note) (call : Nat) (command : Command) : Ending → Prop
  | done {a} (warrants : Warrants d j call a) : Due d j call command (.done a)
  | brokeDown {payload : Payload} (loses : Loses d j call command payload) :
    Due d j call command (.brokeDown payload)

theorem Due.mono {e : Ending} (h : Due d j call command e) (k : List Note) :
    Due d (j ++ k) call command e := by
  cases h with
  | done warrants => exact .done (warrants.mono k)
  | brokeDown loses => exact .brokeDown (loses.mono k)

namespace Warranted

theorem change (h : Warranted d m) {news : List Note} (journal : m'.journal = m.journal ++ news)
    (answers : ∀ (call : Nat) a, m'.calls[call]? = some (.answered a) →
      m.calls[call]? = some (.answered a) ∨ Warrants d m'.journal call a)
    (reports : ∀ call command payload, .report call command payload ∈ m'.turns →
      .report call command payload ∈ m.turns ∨ Loses d m'.journal call command payload)
    (gone : m'.channel.worker = .gone →
      m.channel.worker = .gone ∨ ∃ payload, d.BreaksWith payload) :
    Warranted d m' where
  answers call a told := by
    refine (answers call a told).elim (fun before => ?_) id
    rw [journal]
    exact (h.answers call a before).mono news
  reports call command payload mem := by
    refine (reports call command payload mem).elim (fun before => ?_) id
    rw [journal]
    exact (h.reports call command payload before).mono news
  gone dead := (gone dead).elim h.gone id

theorem frame (h : Warranted d m) {news : List Note} (journal : m'.journal = m.journal ++ news)
    (calls : m'.calls = m.calls)
    (reports : ∀ call command payload, .report call command payload ∈ m'.turns →
      .report call command payload ∈ m.turns)
    (gone : m'.channel.worker = .gone → m.channel.worker = .gone) : Warranted d m' :=
  h.change journal (fun _ _ told => .inl (calls ▸ told))
    (fun call command payload mem => .inl (reports call command payload mem))
    fun dead => .inl (gone dead)

theorem told (h : Warranted d m) {tells : Nat → Answer → Prop} (told : Told tells m.calls m'.calls)
    (warrants : ∀ call a, tells call a → Warrants d m.journal call a)
    (journal : m'.journal = m.journal) (turns : m'.turns = m.turns)
    (gone : m'.channel.worker = .gone →
      m.channel.worker = .gone ∨ ∃ payload, d.BreaksWith payload) :
    Warranted d m' := by
  refine h.change (journal.trans (List.append_nil _).symm) (fun call a now => ?_)
    (fun _ _ _ mem => .inl (turns ▸ mem)) gone
  rcases told.each call with same | ⟨-, b, said, same⟩
  · exact .inl (same ▸ now)
  · cases now.symm.trans same
    exact .inr (journal ▸ warrants call a said)

theorem answer (h : Warranted d m) {a : Answer} (warrants : Warrants d m.journal call a) :
    Warranted d (m.answer call a) := by
  obtain ⟨calls, same, -, told⟩ := m.answer_eq call a
  rw [same]
  refine h.told told ?_ rfl rfl .inl
  rintro _ _ ⟨rfl, rfl⟩
  exact warrants

theorem passOn (h : Warranted d m) (inside : m.gate.ticket? = some t) : Warranted d m.passOn := by
  cases line : m.gate.waiting with
  | nil =>
    rw [passOn_of_nil inside line]
    exact h.frame rfl rfl (fun _ _ _ mem => mem) id
  | cons u us =>
    rw [passOn_of_cons inside line]
    exact h.frame rfl rfl (by simp [turns]) id

theorem closes (h : Warranted d m) {e : Ending} (due : Due d m.journal t.call command e)
    (closes : Closes t command m e m') : Warranted d m' := by
  cases closes with
  | told =>
    cases due with
    | done warrants => exact h.answer warrants
  | panicked =>
    cases due with
    | brokeDown loses => exact h.answer (.panicked loses.breaks)
  | reported =>
    cases due with
    | brokeDown loses =>
      refine h.change (List.append_nil _).symm (fun _ _ told => .inl told) (fun c k x mem => ?_)
        .inl
      simp only [turns, wake, List.mem_append, List.mem_singleton] at mem ⊢
      rcases mem with (mem | mem) | mem
      · exact .inl (.inl mem)
      · cases mem
        exact .inr loses
      · exact .inl (.inr mem)
  | unheard => exact h
  | replied =>
    cases due with
    | done warrants => exact (h.answer warrants).frame rfl rfl (by simp [turns, resume, log]) id
  | buried =>
    cases due with
    | brokeDown loses =>
      obtain ⟨calls, same, -, -, told⟩ := m.bury_eq t.call
      rw [same]
      refine h.told told ?_ rfl rfl fun _ => .inr ⟨_, loses.breaks⟩
      rintro _ _ ⟨-, e, rfl⟩
      exact .undelivered loses.breaks

end Warranted

section records

variable {ledger ledger' : Ledger} {telemetry telemetry' : Telemetry} {r : Result} {e : Event}
  {recorded : List Note} {ending : Ending}
  (records : Records ledger telemetry call r e ledger' telemetry' recorded ending)
include records

theorem Records.due (sameLedger : ledger.breaks = d.ledger.breaks)
    (sameSink : telemetry.breaks = d.telemetry.breaks)
    (noted : ∃ outcome status, .committed call outcome r status ∈ j) :
    Due d j call r.command ending := by
  obtain ⟨outcome, status, mem⟩ := noted
  have lost {payload : Payload} (breaks : d.BreaksWith payload) :
      Loses d j call r.command payload :=
    ⟨⟨outcome, r, status, mem, rfl⟩, breaks⟩
  cases records with
  | all => exact .done (.reply mem rfl)
  | noResult breaks => exact .brokeDown (lost (.inl ⟨_, (congrFun sameLedger _).symm.trans breaks⟩))
  | noEvent breaks => exact .brokeDown (lost (.inr ⟨_, sameSink ▸ breaks⟩))

theorem Records.done_of_unbroken (ledgerHolds : ∀ k, ledger.breaks k = none)
    (sinkHolds : ∀ k, telemetry.breaks k = none) : ending = .done (.result r) := by
  cases records with
  | all => rfl
  | noResult breaks => simp [Ledger.breakdown?, ledgerHolds] at breaks
  | noEvent breaks => simp [sinkHolds] at breaks

theorem Records.no_reply : ∀ n ∈ recorded, n.reply? = none := by
  cases records <;> simp [Note.reply?]

end records

namespace Warranted

theorem places (h : Warranted d m) {p : Post} (places : Places m p m') : Warranted d m' := by
  cases places with
  | refused closed =>
    -- Only a dead worker closes the channel.
    obtain ⟨payload, breaks⟩ := h.gone (by simpa [Channel.isClosed] using closed)
    exact h.answer (.undelivered breaks)
  | rouses => exact h.frame rfl rfl (by simp [turns]) (by simp)
  | queues => exact h.frame rfl rfl (fun _ _ _ mem => mem) id

theorem openCall (h : Warranted d m) (t : Ticket) : Warranted d (m.openCall t) := by
  refine h.change rfl (fun call a told => .inl ?_) (fun _ _ _ mem => .inl mem) .inl
  have told : (m.calls ++ [.pending])[call]? = some (.answered a) := told
  rw [List.getElem?_append] at told
  split at told
  · exact told
  · cases List.mem_singleton.1 (List.mem_of_getElem? told)

theorem abandons (h : Warranted d m) {call : Nat}
    (calls : m'.calls = m.calls.set call .abandoned) (journal : m'.journal = m.journal)
    (turns : m'.turns = m.turns) (worker : m'.channel.worker = m.channel.worker) :
    Warranted d m' := by
  refine h.change (journal.trans (List.append_nil _).symm) (fun call' a told => .inl ?_)
    (fun _ _ _ mem => .inl (turns ▸ mem)) fun gone => .inl (worker ▸ gone)
  rw [calls, List.getElem?_set] at told
  split at told
  · split at told <;> cases told
  · exact told

end Warranted

/-- What is still to be done for somebody who has left the gate has a reason, too. -/
def DueIn (d : Dispatcher) (j : List Note) : Hand → Prop
  | .left t (.account command ending) => Due d j t.call command ending
  | .left t (.force state) => Warrants d j t.call (.arranged state)
  | _ => True

variable {hand hand' : Hand}

theorem Warranted.act (h : Warranted d m) (due : DueIn d m.journal hand)
    (accounted : Accounted d m.gate.phase m) (act : Act m hand hand' m') : Warranted d m' := by
  cases act with
  | steps | sleeps | makes | stays | settled => exact h
  | picks next =>
    exact h.frame (List.append_nil _).symm rfl (fun _ _ _ mem => next ▸ List.mem_cons_of_mem _ mem)
      id
  | @reports call command payload ready deferred next =>
    have picked : Warranted d (log { m with ready, deferred } [.aborted command]) :=
      h.frame rfl rfl (fun _ _ _ mem => next ▸ List.mem_cons_of_mem _ mem) id
    have aborted : Warrants d m.journal call _ :=
      .aborted (List.prefix_refl _) (h.reports call command payload (by simp [next]))
    rw [← accounted.lawful.status_eq] at aborted
    exact picked.answer (aborted.mono [.logged (.aborted command)])
  | @putsOff turn _ again =>
    refine h.frame (List.append_nil _).symm rfl ?_ id
    cases turn <;> cases again <;> simp [turns, putOff]
  | enters => exact h.frame rfl rfl (by simp [turns]) id
  | rests => exact h.frame (List.append_nil _).symm rfl (fun _ _ _ mem => mem) (by simp)
  | takes =>
    refine h.frame rfl rfl (fun _ _ _ mem => ?_) id
    cases waiting : m.channel.waiting <;> simpa [turns, waiting] using mem
  | places asks placed => exact h.places placed
  | runs | publishes => exact h.frame rfl rfl (by simp [turns, putOff, within]) id
  | blocks | refusedFrame => exact h.frame rfl rfl (fun _ _ _ mem => mem) id
  | leaves | arranges =>
    exact Warranted.passOn (h.frame rfl rfl (fun _ _ _ mem => mem) id) rfl
  | closes closes => exact h.closes due closes
  | forces => exact h.answer due
  | opens | asks => exact h.openCall _
  | comes | rouses => exact h.frame (List.append_nil _).symm rfl (by simp [turns, wake]) id
  | handsOn suspended waits inside => exact h.passOn inside
  | givesUp | withdraws => exact h.abandons rfl rfl rfl rfl
  | waits | lines | releases | clearHistory | clearEvents =>
    exact h.frame (List.append_nil _).symm rfl (fun _ _ _ mem => mem) id

theorem Accounted.dueIn (accounted : Accounted d m.gate.phase m) (act : Act m hand hand' m') :
    DueIn d m'.journal hand' := by
  cases act with
  | @leaves _ _ _ _ news _ _ _ _ recorded _ stage' permits held publishes records =>
    have alike := accounted.alike
    have noted := (publishes.lawful alike (accounted.stands held)).of_published
    have due := (records.due alike.ledger alike.telemetry noted).mono recorded
    rw [List.append_assoc] at due
    obtain ⟨rest, same, -⟩ := (Later.passOn (m := m.within _ _ _ _ _) rfl).journal
    exact same ▸ due.mono rest
  | @arranges _ t state held work =>
    obtain ⟨news, same, -⟩ := (Later.passOn (m := m.within _ _ _ _ _) rfl).journal
    have noted : Warrants d (m.journal ++ [.logged (.arranged state),
        .arranged t.call (m.status.arrange state)]) t.call (.arranged state) :=
      .reply (n := .arranged t.call (m.status.arrange state)) (by simp) rfl
    exact same ▸ noted.mono news
  | _ => trivial

theorem Midway.warranted {capacity : Nat} (h : Midway d capacity hand m) :
    Warranted d m ∧ DueIn d m.journal hand := by
  induction h with
  | start =>
    refine ⟨⟨?_, ?_, ?_⟩, trivial⟩ <;> simp [turns, Machine.start, Channel.withCapacity]
  | act before act ih =>
    exact ⟨ih.1.act ih.2 before.accounted act, before.accounted.dueIn act⟩

theorem Reachable.warranted {capacity : Nat} (h : Reachable d capacity m) : Warranted d m :=
  h.midway.warranted.1

end Machine

end Lifecycle
