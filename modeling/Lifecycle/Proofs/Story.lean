import Lifecycle.Proofs.Latest
import Lifecycle.Proofs.Uncleared

/-! Events and history tell the same story. Each event that is handed over is the image of the
result that was appended with it, so of two records of the same size that nobody clears the one
shows what the other does. -/

namespace Lifecycle

/-- What observers are told of a result; nothing of one that failed for no kind of reason. -/
def Result.event? (r : Result) : Option Event :=
  if r.success then
    if r.command = .healthCheck then some (.healthChecked r.previous)
    else some (.transitioned r.command r.previous r.resulting)
  else r.errorKind.map fun kind =>
    if kind = .handlerFailure then .handlerFailed r.command r.previous
    else .rejected r.command r.previous kind

theorem Decision.event?_result {command : Command} {previous : State} {decision : Decision}
    (proper : decision.Proper command previous)
    (failed : ∀ failure, decision = .fail failure → failure.kind = .handlerFailure) :
    (decision.result command previous).event? = some (decision.event command previous) := by
  cases decision with
  | commit next =>
    by_cases checks : command = .healthCheck <;>
      simp [result, event, Result.succeeded, Result.event?, checks]
  | refuse failure =>
    have other : failure.kind ≠ .handlerFailure := proper
    simp [result, event, Result.failed, Result.event?, other]
  | fail failure => simp [result, event, Result.failed, Result.event?, failed failure rfl]

theorem Outcome.kind_of_fail {command : Command} {previous fallback : State} {o : Outcome}
    {failure : Failure} (h : o.decide command previous fallback = .fail failure) :
    failure.kind = .handlerFailure := by
  cases o with
  | transition t =>
    rw [decide] at h
    split at h <;> cases h
  | failed | panicked =>
    cases h
    rfl

theorem Dispatcher.event?_of_decision {d : Dispatcher} {s : Status} {command : Command}
    {outcome : Option Outcome} {decision : Decision}
    (h : d.decision? s command outcome = some decision) :
    (decision.result command s.state).event? = some (decision.event command s.state) := by
  refine Decision.event?_result (proper_decision h) ?_
  rintro failure rfl
  unfold decision? at h
  split at h
  · cases h
  · exact Outcome.kind_of_fail (Option.some.inj h)
  · cases h

/-- The event of a result that has been appended and not been told of yet. -/
def Phase.untold : Phase → List Event
  | appended _ event => [event]
  | _ => []

namespace Lawful

variable {d : Dispatcher} {j : List Note} {a : Standing} {n : Note}

theorem event?_of_published (h : Lawful d j a) :
    ∀ t r e, a.phase = .published t r e → r.event? = some e := by
  intro t r e here
  induction h with
  | nil => cases here
  | snoc before next ih =>
    have follows := next
    cases next with
    | aside => exact ih here
    | refuse | decide =>
      obtain ⟨t, command, args, decision, -, -, -, -, decided, same, -, phase⟩ :=
        before.decision follows
      obtain ⟨-, result, event⟩ := Phase.published.inj (here.symm.trans phase)
      rw [result, event, same]
      exact Dispatcher.event?_of_decision decided
    | _ => cases here

theorem told_twice (accepts : ∀ n, d.telemetry.breaks n = none) (h : Lawful d j a) :
    (j.filterMap Note.emitted? ++ a.phase.untold).map some =
      (j.filterMap Note.appended?).map Result.event? := by
  induction h with
  | nil => rfl
  | snoc before next ih =>
    rw [filterMap_snoc, filterMap_snoc]
    cases next with
    | aside silent =>
      have silent := Note.isSilent_of_isAside silent
      simpa [Note.emitted?_of_isSilent silent, Note.appended?_of_isSilent silent] using ih
    | @append s t r e =>
      have image := before.event?_of_published t r e rfl
      simp only [Phase.untold, List.append_nil] at ih
      simp [Phase.untold, Note.emitted?, Note.appended?, image, ih]
    | announce => simpa [Phase.untold, Note.emitted?, Note.appended?] using ih
    | @loseEvent _ _ _ k _ breaks => simp [accepts k] at breaks
    | _ => simpa [Phase.untold, Note.emitted?, Note.appended?] using ih

theorem dispatched_of_recorded {call : Nat} (h : Lawful d j a) (mem : n ∈ j)
    (recorded : n.isSilent = false) (own : n.contributor? = some call) :
    ∃ t command args, ticketOf j call = some t ∧ t.work = .dispatch command args := by
  obtain ⟨k, l, rfl⟩ := List.append_of_mem mem
  obtain ⟨b, c, before, next, -⟩ := h.at_note
  cases next with
  | aside silent => cases (Note.isSilent_of_isAside silent).symm.trans recorded
  | append =>
    obtain ⟨command, args, work⟩ := before.work_of_recorded (.inl ⟨_, _, rfl⟩)
    cases own
    exact ⟨_, command, args, ticketOf_of_append _ (before.known rfl), work⟩
  | announce =>
    obtain ⟨command, args, work⟩ := before.work_of_recorded (.inr ⟨_, rfl⟩)
    cases own
    exact ⟨_, command, args, ticketOf_of_append _ (before.known rfl), work⟩
  | _ => cases recorded

end Lawful

def Dispatcher.remembering : Dispatcher :=
  { Dispatcher.patient with
    ledger := { history := .withCapacity 2 }
    telemetry := { sink := .buffer (.withCapacity 2) } }

namespace Machine

variable {d : Dispatcher} {capacity : Nat} {m : Machine}

/-- Events and history of a dispatcher tell the same story. -/
structure ToldTwice (d : Dispatcher) (capacity : Nat) (m : Machine) : Prop where
  length : m.emitted.length = m.appended.length
  image : m.emitted.map some = m.appended.map Result.event?
  dispatched : ∀ n ∈ m.journal, ∀ call, n.isSilent = false → n.contributor? = some call →
    ∃ t command args, ticketOf m.journal call = some t ∧ t.work = .dispatch command args ∧
      (t.seat = .caller → m.calls[call]? ≠ some .abandoned)
  refused : ∀ s : Session, s.machine = m → ∀ codec bytes id e,
    Router.accept codec bytes = .error e →
    (s.take (.frame codec bytes id)).1.machine.emitted = m.emitted ∧
      (s.take (.frame codec bytes id)).1.machine.appended = m.appended
  /-- Records of the same size that nobody has cleared correspond. -/
  records : ∀ n, d.ledger.history = .withCapacity n → d.telemetry.sink = .buffer (.withCapacity n) →
    Uncleared d capacity m → ∃ b, m.dispatcher.telemetry.sink = .buffer b ∧
      b.events.map some = m.dispatcher.ledger.history.entries.map Result.event?

theorem recorded_of_refused {s : Session} {codec : Codec} {bytes : Bytes} {id : String}
    {e : RouterError} (refused : Router.accept codec bytes = .error e) :
    (s.take (.frame codec bytes id)).1.machine.emitted = s.machine.emitted ∧
      (s.take (.frame codec bytes id)).1.machine.appended = s.machine.appended := by
  rw [Session.take, refused]
  cases e with
  | decode text => simp [emitted, appended, log, Note.emitted?, Note.appended?]
  | _ => exact ⟨rfl, rfl⟩

/-- If the sink never breaks down, the events that were handed over tell the same story as the
results that were appended, in every configuration of every run. -/
theorem story_told_twice (accepts : ∀ n, d.telemetry.breaks n = none)
    (h : Reachable d capacity m) : m.ToldTwice d capacity := by
  have image : m.emitted.map some = m.appended.map Result.event? := by
    have told := h.lawful.told_twice accepts
    have all : m.gate.phase.untold = [] := by
      cases held : m.gate.holder with
      | none => simp [Gate.phase, held, Phase.untold]
      | some holding =>
        obtain ⟨t, _ | _ | _⟩ := holding <;>
          simp [Gate.phase, held, Holding.phase, Phase.untold]
    rwa [all, List.append_nil] at told
  constructor
  case length => simpa using congrArg List.length image
  case image => exact image
  case dispatched =>
    intro n mem call recorded own
    obtain ⟨t, command, args, known, work⟩ := h.lawful.dispatched_of_recorded mem recorded own
    obtain rfl := ticketOf_call known
    exact ⟨t, command, args, known, work,
      fun attached gave => h.mute t known attached gave n mem own⟩
  case refused =>
    rintro s rfl codec bytes id e refused
    exact recorded_of_refused refused
  case records =>
    intro n history sink uncleared
    obtain ⟨b, same, holds⟩ := uncleared.sink_holds sink
    refine ⟨b, same, ?_⟩
    rw [holds.latest, (uncleared.history_holds history).latest, List.rtake, List.rtake,
      List.map_drop, List.map_drop, image, ← List.length_map, image, List.length_map]

/-- Of three results, two that succeeded and one that was refused, the records show the last two. -/
theorem story_told_twice_of_three :
    ∃ (m : Machine) (b : EventBuffer), m.ToldTwice .remembering 1 ∧ m.emitted.length = 3 ∧
      m.dispatcher.telemetry.sink = .buffer b ∧
      b.events = [.rejected .resume .active .illegalTransition, .healthChecked .active] ∧
      b.events.map some = m.dispatcher.ledger.history.entries.map Result.event? := by
  have uncleared := Uncleared.of_run .remembering 1
    [.dispatch .attached .start .empty, .release 2, .dispatch .queued .resume .empty,
      .arrange .active, .dispatch .detached .healthCheck .empty]
  have story := story_told_twice (fun _ => rfl) uncleared.reachable
  obtain ⟨b, same, corresponds⟩ := story.records 2 rfl rfl uncleared
  refine ⟨_, b, story, ?_, same, ?_, corresponds⟩
  · rfl
  · cases same
    rfl

end Machine

end Lifecycle
