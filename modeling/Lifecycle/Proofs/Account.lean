import Lifecycle.Proofs.Attended
import Lifecycle.Proofs.Lawful

/-! The journal of a machine is lawful, and it leaves the gate where the gate of the machine
stands: what the holder remembers of its admission is what was published last. What the journal
says was recorded is what the history and the sink were given. -/

namespace Lifecycle

def Holding.phase (h : Holding) : Phase :=
  match h.stage with
  | .admitted => .admitted h.ticket
  | .running r => .running h.ticket r.command r.previous r.fallback r.outcome
  | .published r e => .published h.ticket r e

def Gate.phase (g : Gate) : Phase :=
  match g.holder with
  | none => .free
  | some h => h.phase

theorem Gate.phase_ticket? (g : Gate) : g.phase.ticket? = g.ticket? := by
  obtain ⟨holder, waiting⟩ := g
  cases holder with
  | none => rfl
  | some h => obtain ⟨t, _ | _ | _⟩ := h <;> rfl

structure Dispatcher.Alike (d e : Dispatcher) : Prop where
  policy : e.policy = d.policy
  registry : e.registry = d.registry
  ledger : e.ledger.breaks = d.ledger.breaks
  telemetry : e.telemetry.breaks = d.telemetry.breaks

theorem Dispatcher.Alike.prepare {d e : Dispatcher} (h : d.Alike e) (command : Command) :
    (d.withStatus e.status).prepare command = e.prepare command := by
  simp only [Dispatcher.prepare, withStatus, h.policy, h.registry, state]

/-- What becomes of a record that some entries are put into, one after another, and that is cleared
now and then. -/
inductive Kept {α β : Type} (put : α → β → α) (clear : α → α) (a : α) : List β → α → Prop
  | start : Kept put clear a [] a
  | put {xs b} (kept : Kept put clear a xs b) (x : β) : Kept put clear a (xs ++ [x]) (put b x)
  | clear {xs b} (kept : Kept put clear a xs b) : Kept put clear a xs (clear b)

structure Dispatcher.Recorded (d : Dispatcher) (j : List Note) (h : History) (s : Sink) : Prop where
  history : Kept .append .clear d.ledger.history (j.filterMap Note.appended?) h
  sink : Kept (fun s e => (s.emit e).1) .clear d.telemetry.sink (j.filterMap Note.emitted?) s

namespace Dispatcher.Recorded

variable {d : Dispatcher} {j : List Note} {h : History} {s : Sink} (recorded : d.Recorded j h s)
include recorded

theorem silent {news : List Note} (silent : ∀ n ∈ news, n.isSilent) :
    d.Recorded (j ++ news) h s where
  history := by
    have none : news.filterMap Note.appended? = [] :=
      List.filterMap_eq_nil_iff.2 fun n mem => Note.appended?_of_isSilent (silent n mem)
    rw [List.filterMap_append, none, List.append_nil]
    exact recorded.history
  sink := by
    have none : news.filterMap Note.emitted? = [] :=
      List.filterMap_eq_nil_iff.2 fun n mem => Note.emitted?_of_isSilent (silent n mem)
    rw [List.filterMap_append, none, List.append_nil]
    exact recorded.sink

theorem appended (call : Nat) (r : Result) :
    d.Recorded (j ++ [.appended call r]) (h.append r) s where
  history := by
    rw [filterMap_snoc]
    exact recorded.history.put r
  sink := by
    rw [filterMap_snoc]
    exact (List.append_nil _).symm ▸ recorded.sink

theorem emitted (call : Nat) (e : Event) :
    d.Recorded (j ++ [.emitted call e]) h (s.emit e).1 where
  history := by
    rw [filterMap_snoc]
    exact (List.append_nil _).symm ▸ recorded.history
  sink := by
    rw [filterMap_snoc]
    exact recorded.sink.put e

end Dispatcher.Recorded

namespace Machine

variable {d : Dispatcher} {m m' : Machine} {t : Ticket} {stage : Stage}
  {begun recorded : List Note}

/-- The journal is lawful and leaves the gate in the given phase. -/
structure Accounted (d : Dispatcher) (p : Phase) (m : Machine) : Prop where
  lawful : Lawful d m.journal ⟨p, m.status⟩
  alike : d.Alike m.dispatcher
  recorded : d.Recorded m.journal m.dispatcher.ledger.history m.dispatcher.telemetry.sink

section lawful

variable (alike : d.Alike m.dispatcher)
  (h : Lawful d m.journal ⟨Holding.phase ⟨t, stage⟩, m.status⟩)
include alike h

theorem Begins.lawful {r : Run} (begins : Begins m t stage begun r) :
    Lawful d (m.journal ++ begun) ⟨Holding.phase ⟨t, .running r⟩, m.status⟩ := by
  cases begins with
  | already => simpa using h
  | runs work prepared => exact .snoc h (.run work ((alike.prepare _).trans prepared))

theorem Publishes.lawful {status : Status} {news : List Note} {r : Result} {e : Event}
    (publishes : Publishes m t stage status news r e) :
    Lawful d (m.journal ++ news) ⟨.published t r e, status⟩ := by
  cases publishes with
  | before =>
    rw [List.append_nil]
    exact h
  | @now _ begun command previous _ decision decides =>
    have logs {p : Phase} (begun : Lawful d (m.journal ++ begun) ⟨p, m.status⟩) :=
      begun.snoc (.aside (n := .logged (decision.log command previous)) rfl)
    rw [← List.append_assoc, List.append_cons]
    cases decides with
    | refuse work refused =>
      rw [List.append_nil] at logs ⊢
      exact (logs h).snoc (.refuse work ((alike.prepare _).trans refused))
    | decide begins => exact (logs (begins.lawful alike h)).snoc (.decide rfl)

end lawful

section records

variable {ledger ledger' : Ledger} {telemetry telemetry' : Telemetry} {r : Result} {e : Event}
  {ending : Ending}
  (records : Records ledger telemetry t.call r e ledger' telemetry' recorded ending)
include records

theorem Records.lawful (sameLedger : ledger.breaks = d.ledger.breaks)
    (sameSink : telemetry.breaks = d.telemetry.breaks) {j : List Note} {s : Status}
    (h : Lawful d j ⟨.published t r e, s⟩) :
    Lawful d (j ++ recorded ++ [.left t.call]) ⟨.free, s⟩ := by
  cases records with
  | all =>
    have noted := (h.snoc .append).snoc .announce
    have logged := noted.asides (k := (telemetry.sink.emit e).2.map .logged) fun n mem => by
      obtain ⟨_, -, rfl⟩ := List.mem_map.1 mem
      rfl
    simpa using logged.snoc .leave
  | noResult breaks =>
    rw [List.append_nil]
    exact h.snoc (.loseResult ((congrFun sameLedger _).symm.trans breaks))
  | noEvent breaks => exact (h.snoc .append).snoc (.loseEvent (sameSink ▸ breaks))

theorem Records.kept {j : List Note} (h : d.Recorded j ledger.history telemetry.sink) :
    d.Recorded (j ++ recorded) ledger'.history telemetry'.sink := by
  cases records with
  | all =>
    have logs : ∀ n ∈ (telemetry.sink.emit e).2.map Note.logged, n.isSilent := fun n mem => by
      obtain ⟨_, -, rfl⟩ := List.mem_map.1 mem
      rfl
    simpa using ((h.appended t.call r).emitted t.call e).silent logs
  | noResult => rwa [List.append_nil]
  | noEvent => exact h.appended t.call r

end records

theorem Begins.unrecorded {r : Run} (begins : Begins m t stage begun r) :
    ∀ n ∈ begun, n.isSilent := by
  intro n mem
  obtain ⟨_, _, rfl⟩ := begins.notes n mem
  rfl

theorem Publishes.unrecorded {status : Status} {news : List Note} {r : Result} {e : Event}
    (publishes : Publishes m t stage status news r e) : ∀ n ∈ news, n.isSilent := by
  intro n mem
  rcases publishes.notes n mem with ⟨_, _, rfl⟩ | ⟨_, rfl⟩ | ⟨_, _, rfl⟩ <;> rfl

theorem TrackedIn.line {hand : Hand} (tracked : TrackedIn hand m) {news : List Note}
    (inner : ∀ n ∈ news, n.isInner) : ∀ u ∈ m.gate.waiting,
      ticketOf (m.journal ++ news) u.call = some u ∧ .admitted u.call ∉ m.journal ++ news := by
  intro u mem
  have out : u ∈ m.entrants := by simp [entrants, mem]
  have known := tracked.known u (List.mem_append_right _ (List.mem_append_right _ out))
  refine ⟨ticketOf_of_append _ known, fun seen => ?_⟩
  rcases List.mem_append.1 seen with seen | seen
  · exact tracked.fresh u (List.mem_append_right _ out) seen
  · exact Bool.false_ne_true (inner _ seen)

namespace Accounted

theorem asides {p : Phase} (h : Accounted d p m) {news : List Note}
    (journal : m'.journal = m.journal ++ news) (aside : ∀ n ∈ news, n.isAside)
    (same : m'.dispatcher = m.dispatcher) : Accounted d p m' where
  lawful := by
    rw [journal, status, same]
    exact h.lawful.asides aside
  alike := by
    rw [same]
    exact h.alike
  recorded := by
    rw [journal, same]
    exact h.recorded.silent fun n mem => Note.isSilent_of_isAside (aside n mem)

theorem passOn (inside : m.gate.ticket? = some t) (alike : d.Alike m.dispatcher)
    (recorded : d.Recorded m.journal m.dispatcher.ledger.history m.dispatcher.telemetry.sink)
    (leave : Lawful d (m.journal ++ [.left t.call]) ⟨.free, m.status⟩)
    (line : ∀ u ∈ m.gate.waiting,
      ticketOf m.journal u.call = some u ∧ .admitted u.call ∉ m.journal) :
    Accounted d m.passOn.gate.phase m.passOn := by
  cases waiting : m.gate.waiting with
  | nil =>
    rw [passOn_of_nil inside waiting]
    exact ⟨leave, alike, recorded.silent (by simp [Note.isSilent])⟩
  | cons u us =>
    rw [passOn_of_cons inside waiting]
    obtain ⟨known, fresh⟩ := line u (by simp [waiting])
    have admitted := leave.snoc (.enter (ticketOf_of_append _ known) (by simpa using fresh))
    rw [List.append_assoc] at admitted
    exact ⟨admitted, alike, recorded.silent (by simp [Note.isSilent])⟩

theorem answer (h : Accounted d m.gate.phase m) (call : Nat) (a : Answer) :
    Accounted d (m.answer call a).gate.phase (m.answer call a) := by
  obtain ⟨calls, same, -, -⟩ := m.answer_eq call a
  rw [same]
  exact h.asides (List.append_nil _).symm (by simp) rfl

theorem closes (h : Accounted d m.gate.phase m) {command : Command} {e : Ending}
    (closes : Closes t command m e m') : Accounted d m'.gate.phase m' := by
  cases closes with
  | told | panicked => exact h.answer ..
  | reported | unheard => exact h.asides (List.append_nil _).symm (by simp) rfl
  | replied => exact (h.answer ..).asides rfl (by simp [Note.isAside]) rfl
  | buried =>
    obtain ⟨calls, same, -, -, -⟩ := m.bury_eq t.call
    rw [same]
    exact h.asides (List.append_nil _).symm (by simp) rfl

theorem stands (h : Accounted d m.gate.phase m) (held : m.gate.holder = some ⟨t, stage⟩) :
    Lawful d m.journal ⟨Holding.phase ⟨t, stage⟩, m.status⟩ := by
  have lawful := h.lawful
  rwa [Gate.phase, held] at lawful

theorem places (h : Accounted d m.gate.phase m) {p : Post} (places : Places m p m') :
    Accounted d m'.gate.phase m' := by
  cases places with
  | refused => exact h.answer ..
  | rouses | queues => exact h.asides rfl (by simp [Note.isAside]) rfl

theorem pick (h : Accounted d m.gate.phase m) (ready deferred : List Turn) :
    Accounted d m.gate.phase { m with ready, deferred } :=
  ⟨h.lawful, h.alike, h.recorded⟩

theorem act {hand hand' : Hand} (h : Accounted d m.gate.phase m) (tracked : TrackedIn hand m)
    (attended : AttendedIn hand m) (act : Act m hand hand' m') : Accounted d m'.gate.phase m' := by
  have waits : ∀ u ∈ m.gate.waiting,
      ticketOf m.journal u.call = some u ∧ .admitted u.call ∉ m.journal := by
    have line := tracked.line (List.forall_mem_nil _)
    rwa [List.append_nil] at line
  cases act with
  | steps | sleeps | makes | stays | settled => exact h
  | picks => exact h.pick ..
  | @reports call command payload ready deferred =>
    have logged : Accounted d m.gate.phase (log { m with ready, deferred } [.aborted command]) :=
      (h.pick ready deferred).asides rfl (by simp [Note.isAside]) rfl
    exact logged.answer ..
  | @enters t share free =>
    have lawful := h.lawful
    rw [Gate.phase, free] at lawful
    exact ⟨lawful.snoc (.enter (tracked.known t List.mem_cons_self)
      (tracked.fresh t List.mem_cons_self)), h.alike, h.recorded.silent (by simp [Note.isSilent])⟩
  | places asks placed => exact h.places placed
  | runs needs held begins | blocks needs held begins =>
    exact ⟨begins.lawful h.alike (h.stands held), h.alike, h.recorded.silent begins.unrecorded⟩
  | publishes held publishes =>
    exact ⟨publishes.lawful h.alike (h.stands held),
      ⟨h.alike.policy, h.alike.registry, h.alike.ledger, h.alike.telemetry⟩,
      h.recorded.silent publishes.unrecorded⟩
  | leaves stage' permits held publishes records =>
    have published := publishes.lawful h.alike (h.stands held)
    have leave := records.lawful h.alike.ledger h.alike.telemetry published
    refine passOn rfl ?_ ?_ ?_ (tracked.line ?_)
    · exact ⟨h.alike.policy, h.alike.registry, records.breaks.1.trans h.alike.ledger,
        records.breaks.2.trans h.alike.telemetry⟩
    · simpa [within] using records.kept (h.recorded.silent publishes.unrecorded)
    · simpa [within, status] using leave
    · exact List.forall_mem_append.2 ⟨publishes.inner, records.inner⟩
  | closes closes => exact h.closes closes
  | @arranges share t state held work =>
    have logged := (h.stands held).snoc (.aside (n := .logged (.arranged state)) rfl)
    have leave := (logged.snoc (.arrange work)).snoc .leave
    refine passOn rfl ?_ ?_ ?_ (tracked.line ?_)
    · exact ⟨h.alike.policy, h.alike.registry, h.alike.ledger, h.alike.telemetry⟩
    · exact h.recorded.silent (by simp [Note.isSilent])
    · simpa [within, status] using leave
    · simp [Note.isInner]
  | forces => exact h.answer ..
  | handsOn suspended waiting inside own =>
    obtain ⟨stage, held⟩ := Gate.ticket?_eq_some.1 inside
    obtain ⟨⟨r, rfl, -⟩, -⟩ := attended.blocked held (suspended.stuck inside rfl own)
    exact passOn inside h.alike h.recorded ((h.stands held).snoc (.giveUp own)) waits
  | clearHistory =>
    exact ⟨h.lawful, ⟨h.alike.policy, h.alike.registry, h.alike.ledger, h.alike.telemetry⟩,
      h.recorded.history.clear, h.recorded.sink⟩
  | clearEvents =>
    exact ⟨h.lawful, ⟨h.alike.policy, h.alike.registry, h.alike.ledger, h.alike.telemetry⟩,
      h.recorded.history, h.recorded.sink.clear⟩
  | takes | opens | asks | refusedFrame => exact h.asides rfl (by simp [Note.isAside]) rfl
  | putsOff | waits | rests | lines | comes | releases | rouses | givesUp | withdraws =>
    exact h.asides (List.append_nil _).symm (by simp) rfl

end Accounted

variable {hand : Hand} {capacity : Nat}

/-- Whatever a machine does and whatever is done to it, its journal stays lawful. -/
theorem Midway.accounted (h : Midway d capacity hand m) : Accounted d m.gate.phase m := by
  induction h with
  | start => exact ⟨.nil, ⟨rfl, rfl, rfl, rfl⟩, .start, .start⟩
  | act before act ih => exact ih.act before.tracked before.attended act

theorem Reachable.accounted (h : Reachable d capacity m) : Accounted d m.gate.phase m :=
  h.midway.accounted

theorem Reachable.lawful (h : Reachable d capacity m) :
    Lawful d m.journal ⟨m.gate.phase, m.status⟩ := h.accounted.lawful

end Machine

end Lifecycle
