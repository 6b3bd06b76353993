import Lifecycle.Proofs.Change
import Lifecycle.Proofs.Journal

/-! What the parts of a turn can do to a machine, said once for all that is proved about turns. -/

namespace Lifecycle

/-- Some callers that still waited were told something; all others are as before. -/
structure Told (tells : Nat → Answer → Prop) (cs cs' : List Progress) : Prop where
  length : cs'.length = cs.length
  each : ∀ call, cs'[call]? = cs[call]? ∨
    cs[call]? = some .pending ∧ ∃ a, tells call a ∧ cs'[call]? = some (.answered a)

namespace Told

variable {tells tells' : Nat → Answer → Prop} {cs cs' cs'' : List Progress} {call : Nat}

theorem refl (tells : Nat → Answer → Prop) (cs : List Progress) : Told tells cs cs :=
  ⟨rfl, fun _ => .inl rfl⟩

theorem mono (more : ∀ call a, tells call a → tells' call a) (h : Told tells cs cs') :
    Told tells' cs cs' where
  length := h.length
  each call := by
    rcases h.each call with same | ⟨waited, a, said, told⟩
    · exact .inl same
    · exact .inr ⟨waited, a, more call a said, told⟩

theorem trans (h : Told tells cs cs') (h' : Told tells cs' cs'') : Told tells cs cs'' where
  length := h'.length.trans h.length
  each call := by
    rcases h'.each call with same | ⟨waited, a, said, told⟩
    · rw [same]
      exact h.each call
    · rcases h.each call with same | ⟨-, b, -, told'⟩
      · exact .inr ⟨same ▸ waited, a, said, told⟩
      · rw [told'] at waited
        cases waited

theorem pending (h : Told tells cs cs') (waits : cs'[call]? = some .pending) :
    cs[call]? = some .pending := by
  rcases h.each call with same | ⟨_, a, _, told⟩
  · rw [← same, waits]
  · rw [told] at waits
    cases waits

theorem settled {p : Progress} (h : Told tells cs cs') (given : cs[call]? = some p)
    (settled : p ≠ .pending) : cs'[call]? = some p := by
  rcases h.each call with same | ⟨waited, -⟩
  · exact same.trans given
  · exact absurd (Option.some.inj (given.symm.trans waited)) settled

end Told

namespace Machine

variable {m : Machine} {t : Ticket}

theorem isPending_iff {call : Nat} : m.isPending call ↔ m.calls[call]? = some .pending := by
  simp [isPending]

theorem answer_eq (m : Machine) (call : Nat) (a : Answer) :
    ∃ calls, m.answer call a = { m with calls } ∧ calls[call]? ≠ some .pending ∧
      Told (fun call' a' => call' = call ∧ a' = a) m.calls calls := by
  unfold answer
  split
  · next waits =>
    rw [isPending_iff] at waits
    have inRange := (List.getElem?_eq_some_iff.1 waits).1
    refine ⟨m.calls.set call (.answered a), rfl, ?_, List.length_set, fun call' => ?_⟩
    · simp [List.getElem?_set_self inRange]
    · by_cases same : call = call'
      · subst same
        exact .inr ⟨waits, a, ⟨rfl, rfl⟩, List.getElem?_set_self inRange⟩
      · exact .inl (List.getElem?_set_ne same)
  · next settled =>
    rw [isPending_iff] at settled
    exact ⟨m.calls, rfl, settled, .refl ..⟩

theorem answers_eq (a : Answer) (ps : List Post) (m : Machine) :
    ∃ calls, ps.foldl (fun m p => m.answer p.call a) m = { m with calls } ∧
      (∀ p ∈ ps, calls[p.call]? ≠ some .pending) ∧
      Told (fun call a' => (∃ p ∈ ps, p.call = call) ∧ a' = a) m.calls calls := by
  induction ps generalizing m with
  | nil => exact ⟨m.calls, rfl, by simp, .refl ..⟩
  | cons p ps ih =>
    obtain ⟨cs, first, settled, told⟩ := m.answer_eq p.call a
    obtain ⟨cs', rest, settled', told'⟩ := ih { m with calls := cs }
    refine ⟨cs', by rw [List.foldl_cons, first, rest], fun q mem => ?_, ?_⟩
    · rcases List.mem_cons.1 mem with rfl | mem
      · exact fun waits => settled (told'.pending waits)
      · exact settled' q mem
    · refine .trans (told.mono ?_) (told'.mono ?_)
      · exact fun _ _ ⟨same, said⟩ => ⟨⟨p, by simp, same.symm⟩, said⟩
      · exact fun _ _ ⟨⟨q, mem, same⟩, said⟩ => ⟨⟨q, by simp [mem], same⟩, said⟩

/-- With the worker die all requests in the channel, and nobody who sent one waits any longer. -/
theorem bury_eq (m : Machine) (call : Nat) :
    ∃ calls, m.bury call = { m with
        calls, channel := { m.channel with queue := [], waiting := [], worker := .gone } } ∧
      calls[call]? ≠ some .pending ∧
      (∀ p ∈ m.channel.queue ++ m.channel.waiting, calls[p.call]? ≠ some .pending) ∧
      Told (fun call' a => (call' = call ∨ ∃ p ∈ m.channel.queue ++ m.channel.waiting,
        p.call = call') ∧ ∃ e, a = .undelivered e) m.calls calls := by
  obtain ⟨cs, own, settled, told⟩ := m.answer_eq call (.undelivered .replyDropped)
  obtain ⟨cs', queued, settled', told'⟩ :=
    answers_eq (.undelivered .replyDropped) m.channel.queue { m with calls := cs }
  obtain ⟨cs'', waiting, settled'', told''⟩ :=
    answers_eq (.undelivered .closed) m.channel.waiting { m with calls := cs' }
  refine ⟨cs'', ?_, fun waits => ?_, fun p mem waits => ?_, ?_⟩
  · simp only [bury, own, queued, waiting]
  · exact settled (told'.pending (told''.pending waits))
  · rcases List.mem_append.1 mem with mem | mem
    · exact settled' p mem (told''.pending waits)
    · exact settled'' p mem waits
  · refine .trans (told.mono ?_) (.trans (told'.mono ?_) (told''.mono ?_))
    · exact fun _ _ ⟨same, said⟩ => ⟨.inl same, _, said⟩
    · exact fun _ _ ⟨⟨p, mem, same⟩, said⟩ => ⟨.inr ⟨p, by simp [mem], same⟩, _, said⟩
    · exact fun _ _ ⟨⟨p, mem, same⟩, said⟩ => ⟨.inr ⟨p, by simp [mem], same⟩, _, said⟩

end Machine

/-- A note of whoever is in the gate, or of the log. -/
def Note.isInner : Note → Bool
  | .ran .. | .committed .. | .arranged .. | .appended .. | .emitted .. | .logged _ => true
  | _ => false

def Gate.ticket? (g : Gate) : Option Ticket := g.holder.map (·.ticket)

@[simp] theorem Gate.ticket?_held (t : Ticket) (stage : Stage) (waiting : List Ticket) :
    ticket? ⟨some ⟨t, stage⟩, waiting⟩ = some t := rfl

@[simp] theorem Gate.ticket?_free (waiting : List Ticket) : ticket? ⟨none, waiting⟩ = none := rfl

theorem Gate.ticket?_eq_some {g : Gate} {t : Ticket} :
    g.ticket? = some t ↔ ∃ stage, g.holder = some ⟨t, stage⟩ := by
  unfold ticket?
  cases g.holder with
  | none => simp
  | some h => cases h; simp [eq_comm]

theorem Gate.heldBy_iff {g : Gate} {call : Nat} :
    g.heldBy call ↔ ∃ t, g.ticket? = some t ∧ t.call = call ∧ t.seat = .caller := by
  unfold heldBy ticket?
  cases g.holder <;> simp

namespace Machine

variable {m : Machine} {t : Ticket}

theorem passOn_of_nil (inside : m.gate.ticket? = some t) (alone : m.gate.waiting = []) :
    m.passOn = { m with gate := {}, journal := m.journal ++ [.left t.call] } := by
  obtain ⟨stage, held⟩ := Gate.ticket?_eq_some.1 inside
  simp [passOn, held, Gate.leave, alone, note]

theorem passOn_of_cons (inside : m.gate.ticket? = some t) {u : Ticket} {us : List Ticket}
    (line : m.gate.waiting = u :: us) :
    m.passOn = { m with
      gate := { holder := some { ticket := u }, waiting := us }
      journal := m.journal ++ [.left t.call, .admitted u.call]
      ready := m.ready ++ [.proceed (fairShare - 1)] } := by
  obtain ⟨stage, held⟩ := Gate.ticket?_eq_some.1 inside
  simp [passOn, held, Gate.leave, line, note, wake]

theorem calls_passOn (m : Machine) : m.passOn.calls = m.calls := by
  unfold passOn
  cases m.gate.holder <;> dsimp only <;> split <;> rfl

theorem passOn_setProgress (inside : m.gate.ticket? = some t) (call : Nat) (p : Progress) :
    (m.setProgress call p).passOn = m.passOn.setProgress call p := by
  have inside' : (m.setProgress call p).gate.ticket? = some t := inside
  cases line : m.gate.waiting with
  | nil => rw [passOn_of_nil inside line, passOn_of_nil inside' line, setProgress, setProgress]
  | cons => rw [passOn_of_cons inside line, passOn_of_cons inside' line, setProgress, setProgress]

section abandon

variable {call : Nat}

theorem Suspended.stuck (suspended : m.Suspended call) (inside : m.gate.ticket? = some t)
    (same : t.call = call) (own : t.seat = .caller) (share : Nat) : .proceed share ∉ m.turns := by
  intro mem
  have held := suspended _ mem
  rw [owns, Gate.heldBy_iff.2 ⟨t, inside, same, own⟩] at held
  cases held

theorem abandon_of_not_pending (settled : ¬ m.isPending call) : m.abandon call = m := by
  rw [abandon, if_neg settled]

theorem abandon_of_held (waits : m.isPending t.call) (inside : m.gate.ticket? = some t)
    (own : t.seat = .caller) : m.abandon t.call = m.passOn.setProgress t.call .abandoned := by
  rw [abandon, if_pos waits, ← passOn_setProgress inside]
  exact if_pos (Gate.heldBy_iff.2 ⟨t, inside, rfl, own⟩)

theorem abandon_of_not_held (waits : m.isPending call) (outside : ¬ m.gate.heldBy call) :
    m.abandon call = { m with
      calls := m.calls.set call .abandoned
      gate := m.gate.withdraw call
      channel := m.channel.withdraw call } := by
  rw [abandon, if_pos waits]
  exact if_neg outside

/-- A caller that gives up may be done already, or hands on the gate that it holds, or withdraws
from wherever it waits. -/
inductive GivesUp (m : Machine) (call : Nat) : Machine → Prop
  | settled (given : ¬ m.isPending call) : GivesUp m call m
  | handsOn {t : Ticket} (waits : m.isPending call) (inside : m.gate.ticket? = some t)
    (same : t.call = call) (own : t.seat = .caller) :
    GivesUp m call (m.passOn.setProgress call .abandoned)
  | withdraws (waits : m.isPending call) (outside : ¬ m.gate.heldBy call) :
    GivesUp m call { m with
      calls := m.calls.set call .abandoned
      gate := m.gate.withdraw call
      channel := m.channel.withdraw call }

theorem givesUp_abandon (m : Machine) (call : Nat) : GivesUp m call (m.abandon call) := by
  by_cases waits : m.isPending call
  · by_cases held : m.gate.heldBy call
    · obtain ⟨t, inside, rfl, own⟩ := Gate.heldBy_iff.1 held
      rw [abandon_of_held waits inside own]
      exact .handsOn waits inside rfl own
    · rw [abandon_of_not_held waits held]
      exact .withdraws waits held
  · rw [abandon_of_not_pending waits]
    exact .settled waits

end abandon

inductive Closes (t : Ticket) (command : Command) (m : Machine) : Ending → Machine → Prop
  | told {a} (own : t.seat ≠ .worker) : Closes t command m (.done a) (m.answer t.call a)
  | panicked {payload} (own : t.seat = .caller) :
    Closes t command m (.brokeDown payload) (m.answer t.call .panicked)
  | reported {payload} (own : t.seat = .task) (waits : m.isPending t.call) :
    Closes t command m (.brokeDown payload) (m.wake (.report t.call command payload))
  | unheard {payload} (own : t.seat = .task) (given : ¬ m.isPending t.call) :
    Closes t command m (.brokeDown payload) m
  | replied {a logs share} (own : t.seat = .worker) :
    Closes t command m (.done a) (((m.answer t.call a).log logs).resume (.collect share))
  | buried {payload} (own : t.seat = .worker) :
    Closes t command m (.brokeDown payload) (m.bury t.call)

theorem closes_conclude (m : Machine) (t : Ticket) (command : Command) (e : Ending) (share : Nat) :
    Closes t command m.passOn e (m.conclude t command e share) := by
  unfold conclude
  generalize m.passOn = m
  dsimp only
  split
  · next own => exact .told (by simp [own])
  · next own => exact .panicked own
  · next own => exact .told (by simp [own])
  · next own =>
    split
    · next waits => exact .reported own waits
    · next given => exact .unheard own given
  · next a own =>
    split
    · have replied : Closes t command m (.done a)
          (((m.answer t.call a).log []).resume (.collect share)) := .replied own
      simpa [log] using replied
    · next given =>
      have kept : m.answer t.call a = m := by rw [answer, if_neg given]
      have replied : Closes t command m (.done a)
          (((m.answer t.call a).log [.replyAbandoned]).resume (.collect share)) := .replied own
      rwa [kept] at replied
  · next own => exact .buried own

theorem answer_frame (m : Machine) (call : Nat) (a : Answer) :
    (m.answer call a).gate = m.gate ∧ (m.answer call a).permits = m.permits ∧
      (m.answer call a).dispatcher = m.dispatcher := by
  obtain ⟨calls, same, -⟩ := m.answer_eq call a
  rw [same]
  exact ⟨rfl, rfl, rfl⟩

/-- Nobody's account touches the gate or what was published and recorded. -/
theorem Closes.frame {m' : Machine} {command : Command} {e : Ending}
    (closes : Closes t command m e m') :
    m'.gate = m.gate ∧ m'.permits = m.permits ∧ m'.dispatcher = m.dispatcher := by
  cases closes with
  | told | panicked | replied => exact answer_frame ..
  | reported | unheard => exact ⟨rfl, rfl, rfl⟩
  | buried =>
    obtain ⟨calls, same, -⟩ := m.bury_eq t.call
    rw [same]
    exact ⟨rfl, rfl, rfl⟩

/-- What the record of a dispatch comes to: all of it is kept and noted, or the part before a
breakdown. -/
inductive Records (ledger : Ledger) (telemetry : Telemetry) (call : Nat) (r : Result) (e : Event) :
    Ledger → Telemetry → List Note → Ending → Prop
  | all (kept : ledger.breakdown? = none)
    (heard : telemetry.breaks (telemetry.calls + 1) = none) : Records ledger telemetry call r e
      { ledger with history := ledger.history.append r, calls := ledger.calls + 1 }
      { telemetry with sink := (telemetry.sink.emit e).1, calls := telemetry.calls + 1 }
      (.appended call r :: .emitted call e :: (telemetry.sink.emit e).2.map .logged)
      (.done (.result r))
  | noResult {payload} (breaks : ledger.breakdown? = some payload) :
    Records ledger telemetry call r e
      { ledger with calls := ledger.calls + 1 } telemetry [] (.brokeDown payload)
  | noEvent {payload} (breaks : telemetry.breaks (telemetry.calls + 1) = some payload) :
    Records ledger telemetry call r e
      { ledger with history := ledger.history.append r, calls := ledger.calls + 1 }
      { telemetry with calls := telemetry.calls + 1 } [.appended call r] (.brokeDown payload)

theorem record_eq (m : Machine) (call : Nat) (r : Result) (e : Event) :
    ∃ ledger telemetry news ending,
      m.record call r e = ({ m with
        dispatcher := { m.dispatcher with ledger, telemetry }, journal := m.journal ++ news },
        ending) ∧
      Records m.dispatcher.ledger m.dispatcher.telemetry call r e ledger telemetry news ending := by
  cases lost : m.dispatcher.ledger.breakdown? with
  | some payload =>
    refine ⟨_, _, _, _, ?_, .noResult lost⟩
    simp [record, Ledger.append, lost]
  | none =>
    cases silent : m.dispatcher.telemetry.breaks (m.dispatcher.telemetry.calls + 1) with
    | some payload =>
      refine ⟨_, _, _, _, ?_, .noEvent silent⟩
      simp [record, Ledger.append, Telemetry.emit, lost, silent, note]
    | none =>
      refine ⟨_, _, _, _, ?_, .all lost silent⟩
      simp [record, Ledger.append, Telemetry.emit, lost, silent, note, log]

theorem arrive_of_free (free : m.gate.holder = none) (t : Ticket) (share : Nat) :
    m.arrive t (share + 1) = { m with
      gate := { m.gate with holder := some { ticket := t } }
      journal := m.journal ++ [.admitted t.call]
      ready := .proceed share :: m.ready } := by
  simp [arrive, Gate.enter, Gate.isFree, free, note, resume]

theorem arrive_of_held {h : Holding} (held : m.gate.holder = some h) (t : Ticket) (share : Nat) :
    m.arrive t (share + 1) =
      { m with gate := { m.gate with waiting := m.gate.waiting ++ [t] } } := by
  simp [arrive, Gate.enter, Gate.isFree, held]

theorem arrive_cases (m : Machine) (t : Ticket) (share : Nat) :
    (share = 0 ∧ m.arrive t share = m.putOff (.arrive t)) ∨
    (m.gate.holder = none ∧ ∃ share', m.arrive t share = { m with
      gate := { m.gate with holder := some { ticket := t } }
      journal := m.journal ++ [.admitted t.call]
      ready := .proceed share' :: m.ready }) ∨
    (∃ h, m.gate.holder = some h) ∧
      m.arrive t share = { m with gate := { m.gate with waiting := m.gate.waiting ++ [t] } } := by
  cases share with
  | zero => exact .inl ⟨rfl, rfl⟩
  | succ share =>
    cases held : m.gate.holder with
    | none => exact .inr (.inl ⟨rfl, share, arrive_of_free held t share⟩)
    | some h => exact .inr (.inr ⟨⟨h, rfl⟩, arrive_of_held held t share⟩)

/-- A request for which there is room gets into the queue, where it rouses a worker that has nothing
to do, unless the worker is dead. -/
inductive Places (m : Machine) (p : Post) : Machine → Prop
  | refused (closed : m.channel.isClosed) : Places m p (m.answer p.call (.undelivered .closed))
  | rouses (idle : m.channel.worker = .idle) : Places m p { m with
      channel := { m.channel with queue := m.channel.queue ++ [p], worker := .busy }
      ready := m.ready ++ [.collect fairShare]
      journal := m.journal ++ [.queued p.call] }
  | queues (busy : m.channel.worker = .busy) : Places m p { m with
      channel := { m.channel with queue := m.channel.queue ++ [p] }
      journal := m.journal ++ [.queued p.call] }

theorem places_enqueue (m : Machine) (p : Post) (alive : ¬ m.channel.isClosed) :
    Places m p (m.enqueue p) := by
  unfold enqueue
  dsimp only
  split
  · next idle => exact .rouses idle
  · next other =>
    refine .queues ?_
    cases worker : m.channel.worker with
    | idle => exact absurd worker other
    | busy => rfl
    | gone => simp [Channel.isClosed, worker] at alive

theorem places (m : Machine) (p : Post) : Places m p (m.place p) := by
  unfold place
  split
  · next closed => exact .refused closed
  · next alive => exact m.places_enqueue p alive

theorem send_cases (m : Machine) (p : Post) :
    (m.channel.isClosed ∨ m.hasRoom) ∧ Places m p (m.send p) ∨
    ¬ m.channel.isClosed ∧ m.hasRoom = false ∧
      m.send p = { m with channel := { m.channel with waiting := m.channel.waiting ++ [p] } } := by
  unfold send
  split
  · next closed => exact .inl ⟨.inl closed, .refused closed⟩
  · next alive =>
    split
    · next room => exact .inl ⟨.inr room, m.places_enqueue p alive⟩
    · next full => exact .inr ⟨alive, Bool.eq_false_iff.2 full, rfl⟩

theorem release_cases (m : Machine) (n : Nat) :
    m.isBlocked = false ∧ m.release n = { m with permits := m.permits + n } ∨
      m.release n = wake { m with permits := m.permits + n } (.proceed fairShare) := by
  unfold release
  dsimp only
  split
  · exact .inr rfl
  · next nobody => exact .inl ⟨Bool.eq_false_iff.2 nobody, rfl⟩

theorem collect_of_nil (queue : m.channel.queue = []) (share : Nat) :
    m.collect (share + 1) = { m with channel := { m.channel with worker := .idle } } := by
  simp [collect, queue]

theorem collect_of_cons {p : Post} {ps : List Post} (queue : m.channel.queue = p :: ps)
    (share : Nat) : m.collect (share + 1) = arrive { m with
      channel := { m.channel with queue := ps, waiting := m.channel.waiting.tail }
      ready := m.ready ++ (m.channel.waiting.head?.map Turn.place).toList
      journal := m.journal ++ [.taken p.call] } p.ticket share := by
  cases waiting : m.channel.waiting <;> simp [collect, queue, waiting, note, wake]

/-- A machine in which the holder of the gate has done something inside it. -/
def within (m : Machine) (t : Ticket) (stage : Stage) (dispatcher : Dispatcher) (permits : Nat)
    (news : List Note) : Machine :=
  { m with
    dispatcher, permits
    gate := { m.gate with holder := some ⟨t, stage⟩ }
    journal := m.journal ++ news }

/-- The handler of the holder's command begins, unless it did before. -/
inductive Begins (m : Machine) (t : Ticket) : Stage → List Note → Run → Prop
  | already (r : Run) : Begins m t (.running r) [] r
  | runs {command args fallback handler} (work : t.work = .dispatch command args)
    (prepared : m.dispatcher.prepare command = .ok (fallback, handler)) :
    Begins m t .admitted [.ran t.call ⟨command, m.state, args⟩ handler.observed]
      ⟨command, m.state, fallback,
        (handler.behaviour (m.runs command) ⟨command, m.state, args⟩).permits,
        (handler.behaviour (m.runs command) ⟨command, m.state, args⟩).outcome⟩

inductive Decides (m : Machine) (t : Ticket) :
    Stage → List Note → Command → State → Option Outcome → Decision → Prop
  | refuse {command args failure} (work : t.work = .dispatch command args)
    (refused : m.dispatcher.prepare command = .error failure) :
    Decides m t .admitted [] command m.state none (.refuse failure)
  | decide {stage begun r} (begins : Begins m t stage begun r) : Decides m t stage begun
      r.command r.previous (some r.outcome) (r.outcome.decide r.command r.previous r.fallback)

/-- What the holder's dispatch has published, in this turn if it had not done so before. -/
inductive Publishes (m : Machine) (t : Ticket) :
    Stage → Status → List Note → Result → Event → Prop
  | before (r : Result) (e : Event) : Publishes m t (.published r e) m.status [] r e
  | now {stage begun command previous outcome decision}
    (decides : Decides m t stage begun command previous outcome decision) :
    Publishes m t stage (decision.status command m.status)
      (begun ++ [.logged (decision.log command previous), .committed t.call outcome
        (decision.result command previous) (decision.status command m.status)])
      (decision.result command previous) (decision.event command previous)

/-- What the holder of the gate does in a turn: it stays, put off or blocked, or it leaves. -/
inductive Proceeds (m : Machine) : Machine → Prop
  | nobody (free : m.gate.holder = none) : Proceeds m m
  | putsOff {t stage begun r permits} (needs : Nat) (held : m.gate.holder = some ⟨t, stage⟩)
    (begins : Begins m t stage begun r) :
    Proceeds m ((m.within t (.running { r with permits := needs }) m.dispatcher permits
      begun).putOff (.proceed fairShare))
  | blocks {t stage begun r} (needs : Nat) (held : m.gate.holder = some ⟨t, stage⟩)
    (begins : Begins m t stage begun r) (unmet : 0 < needs) :
    Proceeds m (m.within t (.running { r with permits := needs }) m.dispatcher 0 begun)
  | putsOffRecord {t stage status news r e permits} (held : m.gate.holder = some ⟨t, stage⟩)
    (publishes : Publishes m t stage status news r e) :
    Proceeds m ((m.within t (.published r e) { m.dispatcher with status } permits news).putOff
      (.proceed fairShare))
  | leaves {t stage status news r e ledger telemetry recorded ending m'} (stage' : Stage)
    (permits : Nat) (held : m.gate.holder = some ⟨t, stage⟩)
    (publishes : Publishes m t stage status news r e)
    (records : Records m.dispatcher.ledger m.dispatcher.telemetry t.call r e ledger telemetry
      recorded ending)
    (closes : Closes t r.command (m.within t stage' { m.dispatcher with ledger, telemetry, status }
      permits (news ++ recorded)).passOn ending m') :
    Proceeds m m'
  | arranges {t state} (held : m.gate.holder = some ⟨t, .admitted⟩)
    (work : t.work = .arrange state) :
    Proceeds m ((m.within t .admitted { m.dispatcher with status := m.status.arrange state }
      m.permits [.logged (.arranged state), .arranged t.call
        (m.status.arrange state)]).passOn.answer t.call (.arranged state))

section proceeds

variable {stage : Stage} {begun : List Note} (held : m.gate.holder = some ⟨t, stage⟩)
include held

theorem proceeds_wrapUp {status : Status} {news : List Note} {r : Result} {e : Event}
    (publishes : Publishes m t stage status news r e) (stage' : Stage) (permits share : Nat) :
    Proceeds m ((m.within t stage' { m.dispatcher with status } permits news).wrapUp t r e
      share) := by
  unfold wrapUp
  split
  · exact .putsOffRecord held publishes
  · obtain ⟨ledger, telemetry, recorded, ending, same, records⟩ :=
      (m.within t stage' { m.dispatcher with status } permits news).record_eq t.call r e
    dsimp only
    rw [same]
    have closes := closes_conclude (m.within t stage'
      { m.dispatcher with ledger, telemetry, status } permits (news ++ recorded)) t r.command ending
    refine .leaves stage' permits held publishes records ?_
    simpa [within] using closes _

theorem proceeds_finish {command : Command} {previous : State} {outcome : Option Outcome}
    {decision : Decision} (decides : Decides m t stage begun command previous outcome decision)
    (stage' : Stage) (permits share : Nat) :
    Proceeds m ((m.within t stage' m.dispatcher permits begun).finish t command previous outcome
      decision share) := by
  have wraps := proceeds_wrapUp held (.now decides) stage' permits share
  simpa [finish, within, commit, note, log, setStatus, status] using wraps

theorem proceeds_advance {r : Run} (begins : Begins m t stage begun r) (stage' : Stage)
    (share : Nat) :
    Proceeds m ((m.within t stage' m.dispatcher m.permits begun).advance t r share) := by
  unfold advance
  dsimp only
  split
  · exact proceeds_finish held (.decide begins) ..
  · split
    · exact .putsOff _ held begins
    · next unmet spare =>
      have all : m.permits - min (min r.permits m.permits) share = 0 := by
        simp only [within] at unmet spare
        omega
      have blocks := Proceeds.blocks (r.permits - min (min r.permits m.permits) share) held begins
        (by simp only [within] at unmet spare ⊢; omega)
      simpa only [within, all] using blocks

end proceeds

theorem proceeds (m : Machine) (share : Nat) : Proceeds m (m.proceed share) := by
  unfold proceed
  split
  · next free => exact .nobody free
  · next h held =>
    obtain ⟨t, stage⟩ := h
    have same : m = m.within t stage m.dispatcher m.permits [] := by
      simp only [within, ← held, List.append_nil]
    dsimp only
    split
    · unfold begin
      split
      · next state work =>
        simpa [within, log, note, setStatus, status, ← held] using Proceeds.arranges held work
      · next work =>
        split
        · next refused =>
          have finishes := proceeds_finish held (.refuse work refused) .admitted m.permits share
          rwa [← same] at finishes
        · next prepared => exact proceeds_advance held (.runs work prepared) .admitted share
    · next r =>
      have advances := proceeds_advance held (.already r) (.running r) share
      rwa [← same] at advances
    · next r e =>
      have wraps : Proceeds m ((m.within t (.published r e) m.dispatcher m.permits []).wrapUp t r e
          share) := proceeds_wrapUp held (.before r e) ..
      rwa [← same] at wraps

variable {stage : Stage} {begun recorded news : List Note} {r : Result} {e : Event}

theorem Begins.notes {run : Run} (h : Begins m t stage begun run) :
    ∀ n ∈ begun, ∃ context observed, n = .ran t.call context observed := by
  cases h with
  | already => simp
  | runs => exact List.forall_mem_singleton.2 ⟨_, _, rfl⟩

theorem Begins.inner {run : Run} (h : Begins m t stage begun run) : ∀ n ∈ begun, n.isInner := by
  intro n mem
  obtain ⟨_, _, rfl⟩ := h.notes n mem
  rfl

theorem Publishes.notes {status : Status} (h : Publishes m t stage status news r e) :
    ∀ n ∈ news, (∃ context observed, n = .ran t.call context observed) ∨
      (∃ record, n = .logged record) ∨
      ∃ outcome status, n = .committed t.call outcome r status := by
  cases h with
  | before => simp
  | now decides =>
    refine List.forall_mem_append.2 ⟨fun n mem => .inl ?_, by simp⟩
    cases decides with
    | refuse => cases mem
    | decide begins => exact begins.notes n mem

theorem Publishes.inner {status : Status} (h : Publishes m t stage status news r e) :
    ∀ n ∈ news, n.isInner := by
  intro n mem
  rcases h.notes n mem with ⟨_, _, rfl⟩ | ⟨_, rfl⟩ | ⟨_, _, rfl⟩ <;> rfl

section records

variable {ledger ledger' : Ledger} {telemetry telemetry' : Telemetry} {call : Nat}
  {ending : Ending}
  (records : Records ledger telemetry call r e ledger' telemetry' recorded ending)
include records

theorem Records.inner : ∀ n ∈ recorded, n.isInner := by
  cases records <;> simp [Note.isInner]

theorem Records.breaks :
    ledger'.breaks = ledger.breaks ∧ telemetry'.breaks = telemetry.breaks := by
  cases records <;> exact ⟨rfl, rfl⟩

end records

end Machine

end Lifecycle
