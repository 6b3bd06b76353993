import Lifecycle.Proofs.Tickets

/-! Acts with which nobody moves: no ticket comes, goes or gets to another place, and the journal
has only what the holder of the gate does inside it. Whatever is read off the tickets' turns and off
the other notes is then as before. The holder leaves only after acts of this kind. -/

namespace Lifecycle

def Hand.isInner : Hand → Bool
  | .turn (.proceed _) | .turn (.collect _) | .move (.release _) => true
  | .empty | .step | .left .. => true
  | _ => false

/-- A turn that may be put off: no call waits for it in an order of its own. -/
def Turn.canWait : Turn → Bool
  | .arrive t => t.seat == .worker
  | .place _ => false
  | _ => true

theorem Turn.canWait_of_ticket? {turn : Turn} (other : turn.ticket? = none) : turn.canWait := by
  cases turn <;> first | rfl | cases other

namespace Machine

structure Unmoved (m m' : Machine) : Prop where
  inside : m'.gate.ticket? = m.gate.ticket?
  waiting : m'.gate.waiting = m.gate.waiting
  calls : m'.calls.length = m.calls.length
  carried : m'.turns.filter (·.ticket?.isSome) = m.turns.filter (·.ticket?.isSome)
  deferred : ∀ turn ∈ m'.deferred, turn ∈ m.deferred ∨ turn.ticket? = none
  journal : ∃ news, m'.journal = m.journal ++ news ∧ ∀ n ∈ news, n.isInner

namespace Unmoved

variable {m m' m'' : Machine} {t : Ticket} {turn : Turn}

theorem refl (m : Machine) : Unmoved m m :=
  ⟨rfl, rfl, rfl, rfl, fun _ mem => .inl mem, [], (List.append_nil _).symm, by simp⟩

theorem trans (h : Unmoved m m') (h' : Unmoved m' m'') : Unmoved m m'' where
  inside := h'.inside.trans h.inside
  waiting := h'.waiting.trans h.waiting
  calls := h'.calls.trans h.calls
  carried := h'.carried.trans h.carried
  deferred turn mem := (h'.deferred turn mem).elim (h.deferred turn) .inr
  journal := by
    obtain ⟨news, same, inner⟩ := h.journal
    obtain ⟨news', same', inner'⟩ := h'.journal
    exact ⟨news ++ news', by rw [same', same, List.append_assoc],
      List.forall_mem_append.2 ⟨inner, inner'⟩⟩

section reads

variable {α : Type} (h : Unmoved m m')
include h

theorem filterMap_turns {f : Turn → Option α}
    (other : ∀ turn, turn.ticket? = none → f turn = none) :
    m'.turns.filterMap f = m.turns.filterMap f := by
  have carried (turns : List Turn) :
      turns.filterMap f = (turns.filter (·.ticket?.isSome)).filterMap f := by
    rw [List.filterMap_filter]
    refine congrArg (turns.filterMap ·) (funext fun turn => ?_)
    cases ticket : turn.ticket? with
    | none => exact other turn ticket
    | some t => rfl
  rw [carried, h.carried, ← carried]

theorem filterMap_journal {f : Note → Option α} (outer : ∀ n, n.isInner → f n = none) :
    m'.journal.filterMap f = m.journal.filterMap f := by
  obtain ⟨news, same, inner⟩ := h.journal
  rw [same, List.filterMap_append,
    List.filterMap_eq_nil_iff.2 fun n mem => outer n (inner n mem), List.append_nil]

end reads

theorem of_same (gate : m'.gate = m.gate) (calls : m'.calls.length = m.calls.length)
    (ready : m'.ready = m.ready) (deferred : m'.deferred = m.deferred)
    (journal : m'.journal = m.journal) : Unmoved m m' where
  inside := by rw [gate]
  waiting := by rw [gate]
  calls := calls
  carried := by rw [turns, turns, ready, deferred]
  deferred turn mem := .inl (deferred ▸ mem)
  journal := ⟨[], journal.trans (List.append_nil _).symm, by simp⟩

theorem channel (m : Machine) (channel : Channel) : Unmoved m { m with channel } :=
  of_same rfl rfl rfl rfl rfl

theorem dispatcher (m : Machine) (dispatcher : Dispatcher) : Unmoved m { m with dispatcher } :=
  of_same rfl rfl rfl rfl rfl

theorem answer (m : Machine) (call : Nat) (a : Answer) : Unmoved m (m.answer call a) := by
  obtain ⟨calls, same, -, told⟩ := m.answer_eq call a
  rw [same]
  exact of_same rfl told.length rfl rfl rfl

theorem setProgress (m : Machine) (call : Nat) (p : Progress) : Unmoved m (m.setProgress call p) :=
  of_same rfl List.length_set rfl rfl rfl

theorem log (m : Machine) (records : List LogRecord) : Unmoved m (m.log records) :=
  ⟨rfl, rfl, rfl, rfl, fun _ mem => .inl mem, _, rfl, by simp [Note.isInner]⟩

theorem within {stage : Stage} (held : m.gate.holder = some ⟨t, stage⟩) {news : List Note}
    (inner : ∀ n ∈ news, n.isInner) (stage' : Stage) (dispatcher : Dispatcher) (permits : Nat) :
    Unmoved m (m.within t stage' dispatcher permits news) :=
  ⟨(Gate.ticket?_eq_some.2 ⟨stage, held⟩).symm, rfl, rfl, rfl, fun _ mem => .inl mem, _, rfl, inner⟩

section turns

variable (other : turn.ticket? = none)
include other

theorem wake (m : Machine) : Unmoved m (m.wake turn) :=
  ⟨rfl, rfl, rfl, by simp [turns, Machine.wake, other], fun _ mem => .inl mem, [],
    (List.append_nil _).symm, by simp⟩

theorem resume (m : Machine) : Unmoved m (m.resume turn) :=
  ⟨rfl, rfl, rfl, by simp [turns, Machine.resume, other], fun _ mem => .inl mem, [],
    (List.append_nil _).symm, by simp⟩

theorem putOff (m : Machine) : Unmoved m (m.putOff turn) := by
  refine ⟨rfl, rfl, rfl, by simp [turns, Machine.putOff, other], fun turn' mem => ?_, [],
    (List.append_nil _).symm, by simp⟩
  rcases List.mem_cons.1 mem with rfl | mem
  · exact .inr other
  · exact .inl mem

theorem pick {ready deferred : List Turn} (next : m.turns = turn :: (ready ++ deferred))
    (fewer : deferred ⊆ m.deferred) : Unmoved m { m with ready, deferred } := by
  refine ⟨rfl, rfl, rfl, ?_, fun _ mem => .inl (fewer mem), [], (List.append_nil _).symm, by simp⟩
  rw [next, List.filter_cons_of_neg (by simp [other])]
  rfl

end turns

theorem closes {command : Command} {e : Ending} (closes : Closes t command m e m') :
    Unmoved m m' := by
  cases closes with
  | told | panicked => exact answer ..
  | reported => exact wake rfl m
  | unheard => exact refl m
  | replied => exact (answer ..).trans ((log ..).trans (resume rfl _))
  | buried =>
    obtain ⟨calls, same, -, -, told⟩ := m.bury_eq t.call
    rw [same]
    exact of_same rfl told.length rfl rfl rfl

end Unmoved

variable {m m' : Machine} {hand hand' : Hand} {t : Ticket}

theorem Act.unmoved (act : Act m hand hand' m') (inner : hand.isInner) (done : hand' = .empty) :
    Unmoved m m' := by
  have other : (Turn.proceed fairShare).ticket? = none := rfl
  cases act with
  | sleeps | stays => exact .refl m
  | reports next fewer =>
    exact (Unmoved.pick rfl next fewer).trans ((Unmoved.log ..).trans (.answer ..))
  | putsOff again =>
    cases again with
    | arrive => cases inner
    | collect => exact .putOff rfl m
  | rests => exact .channel ..
  | runs needs held begins => exact (Unmoved.within held begins.inner ..).trans (.putOff other _)
  | blocks needs held begins => exact .within held begins.inner ..
  | publishes held publishes =>
    exact (Unmoved.within held publishes.inner ..).trans (.putOff other _)
  | closes closes => exact .closes closes
  | forces => exact .answer ..
  | releases => exact .of_same rfl rfl rfl rfl rfl
  | @rouses n =>
    have more : Unmoved m { m with permits := m.permits + n } := .of_same rfl rfl rfl rfl rfl
    exact more.trans (.wake other _)
  | givesUp => exact .setProgress ..
  | clearHistory | clearEvents => exact .dispatcher ..
  | refusedFrame => exact .log ..
  | steps | makes => cases done
  | picks | takes | leaves | arranges | opens | asks | handsOn => cases done
  | places asks => rcases asks with rfl | ⟨rfl, -⟩ <;> cases inner
  | enters | waits | lines | comes | settled | withdraws => cases inner

theorem Act.leaving (act : Act m hand hand' m') {why : Leave} (left : hand' = .left t why) :
    m.gate.ticket? = some t ∧
      ∃ w, Unmoved m w ∧ w.channel = m.channel ∧ w.gate.ticket? = some t ∧ m' = w.passOn := by
  have inside {stage : Stage} (held : m.gate.holder = some ⟨t, stage⟩) :
      m.gate.ticket? = some t := Gate.ticket?_eq_some.2 ⟨stage, held⟩
  cases act with
  | leaves stage' permits held publishes records =>
    cases left
    have inner := List.forall_mem_append.2 ⟨publishes.inner, records.inner⟩
    exact ⟨inside held, _, .within held inner .., rfl, rfl, rfl⟩
  | arranges held =>
    cases left
    exact ⟨inside held, _, .within held (by simp [Note.isInner]) .., rfl, rfl, rfl⟩
  | handsOn suspended waits holds =>
    cases left
    exact ⟨holds, m, .refl m, rfl, holds, rfl⟩
  | _ => cases left

theorem deferred_passOn (inside : m.gate.ticket? = some t) : m.passOn.deferred = m.deferred := by
  cases line : m.gate.waiting with
  | nil => rw [passOn_of_nil inside line]
  | cons => rw [passOn_of_cons inside line]

theorem Act.late (act : Act m hand hand' m') (late : ∀ turn ∈ m.deferred, turn.canWait) :
    ∀ turn ∈ m'.deferred, turn.canWait := by
  have unmoved (inner : hand.isInner) (done : hand' = .empty) :
      ∀ turn ∈ m'.deferred, turn.canWait := fun turn mem =>
    ((act.unmoved inner done).deferred turn mem).elim (late turn) Turn.canWait_of_ticket?
  have leaving {t : Ticket} {why : Leave} (left : hand' = .left t why) :
      ∀ turn ∈ m'.deferred, turn.canWait := by
    obtain ⟨-, w, stays, -, inside, rfl⟩ := act.leaving left
    rw [deferred_passOn inside]
    exact fun turn mem => (stays.deferred turn mem).elim (late turn) Turn.canWait_of_ticket?
  cases act with
  | picks next other fewer => exact fun turn mem => late turn (fewer mem)
  | putsOff again =>
    intro turn mem
    rcases List.mem_cons.1 mem with rfl | mem
    · cases again with
      | arrive sent => simp [Turn.canWait, sent]
      | collect => rfl
    · exact late turn mem
  | places asks places =>
    cases places with
    | refused =>
      obtain ⟨calls, same, -⟩ := m.answer_eq _ (.undelivered .closed)
      rw [same]
      exact late
    | rouses | queues => exact late
  | leaves | arranges | handsOn => exact leaving rfl
  | reports | runs | blocks | publishes | closes | forces => exact unmoved rfl rfl
  | _ => exact late

theorem Midway.late {d : Dispatcher} {capacity : Nat} (h : Midway d capacity hand m) :
    ∀ turn ∈ m.deferred, turn.canWait := by
  induction h with
  | start => exact nofun
  | act _ act ih => exact act.late ih

end Machine

end Lifecycle
