import Lifecycle.Proofs.Acts

/-! How the channel's worker dies. Whatever handlers do and whatever callers and other paths do, the
worker goes on; only if the history or the sink breaks down in a dispatch that it runs itself it
leaves the gate and dies, all with one turn. -/

namespace Lifecycle.Machine

def Breakdown (m m' : Machine) : Prop :=
  m'.dispatcher.ledger.calls ≠ m.dispatcher.ledger.calls ∧
      m.dispatcher.ledger.breakdown?.isSome ∨
    m'.dispatcher.telemetry.calls ≠ m.dispatcher.telemetry.calls ∧
      (m.dispatcher.telemetry.breaks (m.dispatcher.telemetry.calls + 1)).isSome

/-- The history or the sink breaks down in a dispatch that the worker runs. -/
def WorkerBreaks (m m' : Machine) : Prop :=
  m.Breakdown m' ∧ ∃ t, m.gate.ticket? = some t ∧ t.seat = .worker

/-- A change with which nothing is recorded, the worker does not die, and no request is lost or
turned away unless it was dead before. -/
structure Spared (m m' : Machine) : Prop where
  gone : m'.channel.worker = .gone → m.channel.worker = .gone
  told : ∀ (call : Nat) e, m'.calls[call]? = some (.answered (.undelivered e)) →
    m.calls[call]? = some (.answered (.undelivered e)) ∨ m.channel.worker = .gone
  ledger : m'.dispatcher.ledger.calls = m.dispatcher.ledger.calls
  telemetry : m'.dispatcher.telemetry.calls = m.dispatcher.telemetry.calls

variable {m m' m'' : Machine} {t : Ticket}

namespace Spared

theorem frame (gone : m'.channel.worker = .gone → m.channel.worker = .gone)
    (calls : m'.calls = m.calls) (ledger : m'.dispatcher.ledger = m.dispatcher.ledger)
    (telemetry : m'.dispatcher.telemetry = m.dispatcher.telemetry) : Spared m m' :=
  ⟨gone, fun _ _ told => .inl (calls ▸ told), by rw [ledger], by rw [telemetry]⟩

theorem refl (m : Machine) : Spared m m := frame id rfl rfl rfl

theorem trans (h : Spared m m') (h' : Spared m' m'') : Spared m m'' where
  gone dead := h.gone (h'.gone dead)
  told call e told := (h'.told call e told).elim (h.told call e) fun dead => .inr (h.gone dead)
  ledger := h'.ledger.trans h.ledger
  telemetry := h'.telemetry.trans h.telemetry

theorem answer (call : Nat) {a : Answer}
    (heard : (∀ e, a ≠ .undelivered e) ∨ m.channel.worker = .gone) :
    Spared m (m.answer call a) := by
  obtain ⟨calls, same, -, told⟩ := m.answer_eq call a
  rw [same]
  refine ⟨id, fun call' e now => ?_, rfl, rfl⟩
  rcases told.each call' with before | ⟨-, b, ⟨-, rfl⟩, said⟩
  · exact .inl (before.symm.trans now)
  · cases said.symm.trans now
    exact .inr (heard.resolve_left fun other => other e rfl)

theorem log (m : Machine) (records : List LogRecord) : Spared m (m.log records) :=
  frame id rfl rfl rfl

theorem wake (m : Machine) (turn : Turn) : Spared m (m.wake turn) := frame id rfl rfl rfl

theorem passOn (inside : m.gate.ticket? = some t) : Spared m m.passOn := by
  cases line : m.gate.waiting with
  | nil =>
    rw [passOn_of_nil inside line]
    exact frame id rfl rfl rfl
  | cons u us =>
    rw [passOn_of_cons inside line]
    exact frame id rfl rfl rfl

theorem closes {command : Command} {ending : Ending} (closes : Closes t command m ending m')
    (heard : ∀ e, ending ≠ .done (.undelivered e))
    (lives : t.seat = .worker → ∃ a, ending = .done a) : Spared m m' := by
  have other {a : Answer} (same : ending = .done a) (e : ChannelError) : a ≠ .undelivered e :=
    fun this => heard e (this ▸ same)
  cases closes with
  | told own => exact answer _ (.inl (other rfl))
  | panicked => exact answer _ (.inl nofun)
  | reported => exact wake ..
  | unheard => exact refl m
  | @replied a logs =>
    have heard : Spared m (m.answer t.call a) := answer t.call (.inl (other rfl))
    exact (heard.trans (log _ logs)).trans (frame id rfl rfl rfl)
  | buried sent =>
    obtain ⟨a, same⟩ := lives sent
    cases same

theorem openCall (m : Machine) (t : Ticket) : Spared m (m.openCall t) := by
  refine ⟨id, fun call e told => .inl ?_, rfl, rfl⟩
  have told : (m.calls ++ [.pending])[call]? = some (.answered (.undelivered e)) := told
  rw [List.getElem?_append] at told
  split at told
  · exact told
  · cases List.mem_singleton.1 (List.mem_of_getElem? told)

theorem act {hand hand' : Hand} (bystanders : hand.isBystanders) (act : Act m hand hand' m') :
    Spared m m' := by
  cases act with
  | places _ places =>
    cases places with
    | refused closed => exact answer _ (.inr (by simpa [Channel.isClosed] using closed))
    | rouses => exact frame (by simp) rfl rfl rfl
    | queues => exact frame id rfl rfl rfl
  | rests => exact frame (by simp) rfl rfl rfl
  | opens | asks => exact openCall ..
  | putsOff | enters | waits | takes | lines | comes | releases | rouses =>
    exact frame id rfl rfl rfl
  | _ => cases bystanders

theorem take (m : Machine) {turn : Turn} (other : ∀ share, turn ≠ .proceed share) :
    Spared m (m.take turn) := by
  cases turn with
  | proceed share => exact absurd rfl (other share)
  | report call command payload => exact (log ..).trans (answer _ (.inl nofun))
  | arrive | collect | place =>
    refine (acts_take m ?_).relates trans Act.isBystanders act rfl
    nofun

theorem setProgress (m : Machine) (call : Nat) : Spared m (m.setProgress call .abandoned) := by
  refine ⟨id, fun call' e told => .inl ?_, rfl, rfl⟩
  have told : (m.calls.set call .abandoned)[call']? = some (.answered (.undelivered e)) := told
  rw [List.getElem?_set] at told
  split at told
  · split at told <;> cases told
  · exact told

theorem givesUp {call : Nat} (g : GivesUp m call m') : Spared m m' := by
  cases g with
  | settled => exact refl m
  | handsOn waits inside => exact (passOn inside).trans (setProgress ..)
  | withdraws => exact (setProgress m call).trans (frame id rfl rfl rfl)

theorem submit (m : Machine) (v : Move) : Spared m (m.submit v) := by
  cases stays : v.givesUp with
  | true =>
    cases v with
    | abandon call => exact givesUp (m.givesUp_abandon call)
    | _ => cases stays
  | false =>
    exact (acts_submit (timely_of_stays stays)).relates trans Act.isBystanders act
      (Hand.isBystanders_move stays)

theorem calm (h : Spared m m') : ¬ m.WorkerBreaks m' := by
  rintro ⟨⟨called, -⟩ | ⟨called, -⟩, -⟩
  · exact called h.ledger
  · exact called h.telemetry

end Spared

/-- What becomes of the worker with a change: it is spared, or the holder of the gate is the worker,
whose dispatch is published and then breaks down. -/
inductive Fates (m m' : Machine) : Prop
  | spared (gone : m'.channel.worker = .gone → m.channel.worker = .gone)
    (told : ∀ (call : Nat) e, m'.calls[call]? = some (.answered (.undelivered e)) →
      m.calls[call]? = some (.answered (.undelivered e)) ∨ m.channel.worker = .gone)
    (calm : ¬ m.WorkerBreaks m')
  | dies {t stage status news r e ledger telemetry recorded payload share ready deferred}
    (stage' : Stage) (permits : Nat) (held : m.gate.holder = some ⟨t, stage⟩)
    (sent : t.seat = .worker) (next : m.turns = .proceed share :: (ready ++ deferred))
    (publishes : Publishes { m with ready, deferred } t stage status news r e)
    (records : Records m.dispatcher.ledger m.dispatcher.telemetry t.call r e ledger telemetry
      recorded (.brokeDown payload))
    (same : m' = (within { m with ready, deferred } t stage'
      { m.dispatcher with ledger, telemetry, status } permits
        (news ++ recorded)).passOn.bury t.call)
    (broke : m.WorkerBreaks m')

theorem Spared.fates (h : Spared m m') : Fates m m' := .spared h.gone h.told h.calm

theorem Records.kept_whole {ledger ledger' : Ledger} {telemetry telemetry' : Telemetry} {call : Nat}
    {r : Result} {e : Event} {recorded : List Note} {a : Answer}
    (records : Records ledger telemetry call r e ledger' telemetry' recorded (.done a)) :
    ledger.breakdown? = none ∧ telemetry.breaks (telemetry.calls + 1) = none ∧ a = .result r := by
  cases records with
  | all kept heard => exact ⟨kept, heard, rfl⟩

theorem dispatcher_passOn (m : Machine) : m.passOn.dispatcher = m.dispatcher := by
  unfold passOn
  cases m.gate.holder <;> dsimp only <;> split <;> rfl

theorem dispatcher_bury (m : Machine) (call : Nat) : (m.bury call).dispatcher = m.dispatcher := by
  obtain ⟨calls, same, -⟩ := m.bury_eq call
  rw [same]

theorem Records.breakdown {call : Nat} {r : Result} {e : Event} {ledger : Ledger}
    {telemetry : Telemetry} {recorded : List Note} {payload : Payload}
    (records : Records m.dispatcher.ledger m.dispatcher.telemetry call r e ledger telemetry recorded
      (.brokeDown payload)) (kept : m'.dispatcher.ledger = ledger)
    (heard : m'.dispatcher.telemetry = telemetry) : m.Breakdown m' := by
  cases records with
  | noResult breaks =>
    refine .inl ⟨?_, by rw [breaks]; rfl⟩
    rw [kept]
    exact Nat.succ_ne_self _
  | noEvent breaks =>
    refine .inr ⟨?_, by rw [breaks]; rfl⟩
    rw [heard]
    exact Nat.succ_ne_self _

theorem fates_proceed {share : Nat} {ready deferred : List Turn}
    (next : m.turns = .proceed share :: (ready ++ deferred))
    (p : Proceeds { m with ready, deferred } m') : Fates m m' := by
  cases p with
  | nobody | putsOff | blocks | putsOffRecord =>
    refine Spared.fates ?_
    exact .frame id rfl rfl rfl
  | @leaves t stage status news r e ledger telemetry recorded ending _ stage' permits held
      publishes records closes =>
    by_cases dead : t.seat = .worker ∧ ∃ payload, ending = .brokeDown payload
    · obtain ⟨sent, payload, rfl⟩ := dead
      cases closes with
      | panicked own | reported own | unheard own => cases own.symm.trans sent
      | buried =>
        refine .dies stage' permits held sent next publishes records rfl ⟨?_, t, ?_, sent⟩
        · refine records.breakdown ?_ ?_ <;> rw [dispatcher_bury, dispatcher_passOn] <;> rfl
        · exact Gate.ticket?_eq_some.2 ⟨stage, held⟩
    · have heard : ∀ e', ending ≠ .done (.undelivered e') := by
        rintro e' rfl
        cases records.kept_whole.2.2
      have lives (sent : t.seat = .worker) : ∃ a, ending = .done a := by
        cases ending with
        | done a => exact ⟨a, rfl⟩
        | brokeDown payload => exact absurd ⟨sent, payload, rfl⟩ dead
      have left := (Spared.passOn (m := within _ _ _ _ _ _) rfl).trans
        (Spared.closes closes heard lives)
      refine .spared left.gone left.told ?_
      rintro ⟨broke, u, inside, sent⟩
      obtain rfl : t = u := by simpa [Gate.ticket?, show m.gate.holder = _ from held] using inside
      obtain ⟨a, rfl⟩ := lives sent
      obtain ⟨kept, heard, -⟩ := records.kept_whole
      have kept : m.dispatcher.ledger.breakdown? = none := kept
      rcases broke with ⟨-, broke⟩ | ⟨-, broke⟩
      · simp [kept] at broke
      · rw [show _ = none from heard] at broke
        cases broke
  | @arranges t state =>
    have left : Spared m (within { m with ready, deferred } t .admitted
        { m.dispatcher with status := m.status.arrange state } m.permits
        [.logged (.arranged state), .arranged t.call (m.status.arrange state)]).passOn := by
      refine .trans ?_ (.passOn rfl)
      exact .frame id rfl rfl rfl
    refine Spared.fates (left.trans (.answer _ (.inl ?_)))
    nofun

theorem fates (c : Change m m') : Fates m m' := by
  cases c with
  | turn =>
    rcases m.step_cases with ⟨-, same⟩ | ⟨turn, ready, deferred, next, -, same⟩
    · rw [same]
      exact (Spared.refl m).fates
    · have picked : Spared m { m with ready, deferred } := .frame id rfl rfl rfl
      rw [same]
      cases turn with
      | proceed share => exact fates_proceed next (Machine.proceeds _ share)
      | _ =>
        refine Spared.fates (picked.trans (.take _ ?_))
        nofun
  | move v => exact (Spared.submit m v).fates
  | clearHistory | clearEvents =>
    refine Spared.fates ?_
    exact ⟨id, fun _ _ told => .inl told, rfl, rfl⟩
  | refusedFrame => exact (Spared.log ..).fates

end Lifecycle.Machine
