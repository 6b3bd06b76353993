import Lifecycle.Proofs.Answers

/-! A result that a caller gets tells what its dispatch did. The one exception is the caller of a
task that breaks down after its decision is published: it is told of a handler failure, in whatever
state it sees then. -/

namespace Lifecycle

theorem Policy.evaluate_healthCheck (p : Policy) (s : State) :
    p.evaluate s .healthCheck = .allowed s := by
  obtain ⟨_ | _⟩ := p <;> cases s <;> rfl

/-- A decision as handlers and refusals lead to it: a health check that succeeds stays where it is,
and only a handler's failure is called that. -/
def Decision.Proper (command : Command) (previous : State) : Decision → Prop
  | commit next => command = .healthCheck → next = previous
  | refuse failure => failure.kind ≠ .handlerFailure
  | fail _ => True

section proper

variable {command : Command} {previous fallback : State}

theorem Transition.permitted_cases (command : Command) (previous s : State) :
    (resolve.permitted command previous s = .ok s ∧ (command = .healthCheck → s = previous)) ∨
      resolve.permitted command previous s = .error (.forbiddenOverride command s) := by
  unfold resolve.permitted
  split
  · exact .inr rfl
  · next allowed =>
    refine .inl ⟨rfl, fun same => Decidable.not_not.1 fun other => ?_⟩
    exact allowed ⟨same, other⟩

theorem Transition.resolve_cases (t : Transition)
    (stays : command = .healthCheck → fallback = previous) :
    (∃ next, t.resolve command previous fallback = .ok next ∧
      (command = .healthCheck → next = previous)) ∨
    ∃ failure, t.resolve command previous fallback = .error failure ∧
      failure.kind = .contractViolation := by
  have named (s : State) : (∃ next, resolve.permitted command previous s = .ok next ∧
      (command = .healthCheck → next = previous)) ∨
      ∃ failure, resolve.permitted command previous s = .error failure ∧
        failure.kind = .contractViolation :=
    (permitted_cases command previous s).imp (fun taken => ⟨s, taken⟩)
      fun broken => ⟨_, broken, rfl⟩
  cases t with
  | default => exact .inl ⟨fallback, rfl, stays⟩
  | moveTo s => exact named s
  | code n =>
    rw [resolve]
    split
    · exact named _
    · exact .inr ⟨_, rfl, rfl⟩

theorem Outcome.proper_decide (o : Outcome) (stays : command = .healthCheck → fallback = previous) :
    (o.decide command previous fallback).Proper command previous := by
  cases o with
  | transition t =>
    rw [decide]
    rcases t.resolve_cases stays with ⟨next, resolved, same⟩ | ⟨failure, resolved, kind⟩
    · rw [resolved]
      exact same
    · rw [resolved]
      exact fun other => by cases kind.symm.trans other
  | failed | panicked => trivial

variable {d : Dispatcher} {s : Status}

theorem Dispatcher.prepare_cases (d : Dispatcher) (command : Command) :
    (∃ failure, d.prepare command = .error failure ∧ failure.kind ≠ .handlerFailure) ∨
    ∃ next handler, d.prepare command = .ok (next, handler) ∧
      d.policy.evaluate d.state command = .allowed next := by
  unfold prepare
  split
  · exact .inl ⟨_, rfl, nofun⟩
  · next allowed =>
    split
    · exact .inl ⟨_, rfl, nofun⟩
    · exact .inr ⟨_, _, rfl, allowed⟩

theorem Dispatcher.proper_decision {outcome : Option Outcome} {decision : Decision}
    (h : d.decision? s command outcome = some decision) : decision.Proper command s.state := by
  unfold decision? at h
  rcases (d.withStatus s).prepare_cases command with ⟨failure, refused, kind⟩ |
    ⟨next, handler, allowed, leads⟩
  · rw [refused] at h
    cases outcome with
    | none => cases h; exact kind
    | some => cases h
  · rw [allowed] at h
    cases outcome with
    | none => cases h
    | some o =>
      cases h
      refine o.proper_decide fun same => ?_
      subst same
      rw [Policy.evaluate_healthCheck] at leads
      cases leads
      rfl

end proper

/-- What the dispatch of a call did: it was admitted in the status `found`, decided as its command
and the outcome of its handler demand, and published a status. -/
structure Did (d : Dispatcher) (j : List Note) (call : Nat) (command : Command) (found : Status)
    (decision : Decision) (status : Status) : Prop where
  ticket : ∃ t args, ticketOf j call = some t ∧ t.work = .dispatch command args
  admitted : ∃ before since, j = before ++ .admitted call :: since ∧
    found = statusAfter d.status before
  decided : ∃ outcome result, .committed call outcome result status ∈ j ∧
    d.decision? found command outcome = some decision ∧ ∀ o, outcome = some o → Ran d j call o

/-- A result tells what its dispatch did. -/
structure Tells (r : Result) (found : Status) (decision : Decision) (status : Status) : Prop where
  previous : r.previous = found.state
  resulting : r.resulting = status.state
  success : r.success = false ↔ ∃ failure, decision = .refuse failure ∨ decision = .fail failure
  failure : r.errorKind = some .handlerFailure →
    ∃ text, r.errorMessage = some text ∧ status = ⟨.error, some text⟩

variable {d : Dispatcher} {j : List Note} {call : Nat} {command : Command} {found status : Status}
  {decision : Decision}

theorem Decision.tells (proper : decision.Proper command found.state) :
    Tells (decision.result command found.state) found decision (decision.status command found) where
  previous := decision.previous_result ..
  resulting := by
    cases decision with
    | commit next =>
      rw [Decision.status]
      split
      · next same => exact proper same
      · rfl
    | refuse | fail => rfl
  success := by cases decision <;> simp [result, Result.succeeded, Result.failed]
  failure kind := by
    cases decision with
    | commit next => cases kind
    | refuse failure => exact absurd (Option.some.inj kind) proper
    | fail failure => exact ⟨failure.message, rfl, rfl⟩

theorem Lawful.did {a : Standing} {outcome : Option Outcome} {result : Result} (h : Lawful d j a)
    (mem : .committed call outcome result status ∈ j) :
    ∃ command found decision, Did d j call command found decision status ∧
      result = decision.result command found.state ∧ status = decision.status command found := by
  have ran (o : Outcome) (ended : outcome = some o) : Ran d j call o := h.ran (ended ▸ mem)
  obtain ⟨k, l, rfl⟩ := List.append_of_mem mem
  obtain ⟨a, c, upTo, next, -⟩ := h.at_note
  obtain ⟨t, command, args, decision, rfl, inside, undecided, work, decided, result, published,
    -⟩ := upTo.decision next
  obtain ⟨before, since, rfl, known, -, found⟩ := upTo.admission inside
  have found := upTo.status_eq.symm.trans (found undecided)
  rw [found] at decided result published
  refine ⟨command, _, decision, ⟨⟨t, args, ?_, work⟩, ⟨before, _, List.append_assoc .., rfl⟩,
    ⟨outcome, _, mem, decided, ran⟩⟩, result, published⟩
  exact ticketOf_of_append _ (ticketOf_of_append _ known)

theorem Did.unique {a : Standing} {command' : Command} {found' status' : Status}
    {decision' : Decision} (h : Lawful d j a) (did : Did d j call command found decision status)
    (did' : Did d j call command' found' decision' status') :
    command = command' ∧ found = found' ∧ decision = decision' ∧ status = status' := by
  obtain ⟨t, args, known, work⟩ := did.ticket
  obtain ⟨t', args', known', work'⟩ := did'.ticket
  cases known.symm.trans known'
  cases work.symm.trans work'
  have found : found = found' := by
    obtain ⟨before, since, rfl, rfl⟩ := did.admitted
    obtain ⟨before', since', same, rfl⟩ := did'.admitted
    rw [(h.admitted_once same).1]
  subst found
  obtain ⟨outcome, result, mem, decided, -⟩ := did.decided
  obtain ⟨outcome', result', mem', decided', -⟩ := did'.decided
  cases h.published_once mem mem' rfl rfl
  exact ⟨rfl, rfl, Option.some.inj (decided.symm.trans decided'), rfl⟩

theorem Did.tells {a : Standing} {outcome : Option Outcome} {result : Result} {status' : Status}
    (h : Lawful d j a) (did : Did d j call command found decision status)
    (mem : .committed call outcome result status' ∈ j) :
    result.command = command ∧ status = decision.status command found ∧
      Tells result found decision status := by
  obtain ⟨command', found', decision', did', rfl, rfl⟩ := h.did mem
  obtain ⟨rfl, rfl, rfl, rfl⟩ := did.unique h did'
  obtain ⟨_, _, _, decided, -⟩ := did.decided
  exact ⟨decision.command_result .., rfl, decision.tells (Dispatcher.proper_decision decided)⟩

/-- What the caller of a broken task is told is right only by chance: its dispatch must have failed
in the error state with the very text of the breakdown, and that state must be seen then. -/
theorem tells_abortedResult_iff {seen : State} {payload : Payload} {command' : Command} :
    Tells (abortedResult seen command payload) found decision (decision.status command' found) ↔
      seen = .error ∧ found.state = .error ∧ ∃ failure,
        (decision = .refuse failure ∨ decision = .fail failure) ∧
        (abortedResult seen command payload).errorMessage = some failure.message := by
  constructor
  · intro tells
    obtain ⟨failure, failed⟩ := tells.success.1 rfl
    obtain ⟨message, same, status⟩ := tells.failure rfl
    have previous : seen = found.state := tells.previous
    have resulting : seen = (decision.status command' found).state := tells.resulting
    rw [status] at resulting
    refine ⟨resulting, previous.symm.trans resulting, failure, failed, same.trans ?_⟩
    rcases failed with rfl | rfl
    · exact (congrArg Status.lastError status).symm
    · exact (congrArg Status.lastError status).symm
  · rintro ⟨rfl, state, failure, failed, message⟩
    have status : decision.status command' found = ⟨.error, some failure.message⟩ := by
      rcases failed with rfl | rfl
      · rw [← state]
        rfl
      · rfl
    rw [status]
    exact ⟨state.symm, rfl, ⟨fun _ => ⟨failure, failed⟩, fun _ => rfl⟩, fun _ => ⟨_, message, rfl⟩⟩

def Answer.result? : Answer → Option Result
  | .result r | .aborted r => some r
  | _ => none

def Dispatcher.forgetful : Dispatcher where
  policy := {}
  registry := ⟨fun _ => some .accept⟩
  ledger := { history := .withCapacity 1, breaks := fun _ => some (some "history exploded") }
  telemetry := { sink := .discard }

namespace Machine

variable {m : Machine} {capacity : Nat} {a : Answer} {r : Result}

/-- Whoever is given a result made a dispatch that did something definite, and the result tells
just that, unless the dispatch ran on a task that broke down after it. Then the result tells it
only if it is by chance the same. -/
theorem result_tells_iff (h : Reachable d capacity m)
    (told : m.calls[call]? = some (.answered a)) (handed : a.result? = some r) :
    (∃ found decision status, Did d m.journal call r.command found decision status) ∧
    (∀ found decision status, Did d m.journal call r.command found decision status →
      (Tells r found decision status ↔ a = .result r ∨
        r.previous = .error ∧ found.state = .error ∧ ∃ failure,
          (decision = .refuse failure ∨ decision = .fail failure) ∧
          r.errorMessage = some failure.message)) ∧
    (a = .result r ∨ ∃ payload, d.BreaksWith payload ∧
      a = .aborted (abortedResult r.previous r.command payload)) := by
  have lawful := h.lawful
  have did {outcome : Option Outcome} {result : Result} {status : Status}
      (mem : .committed call outcome result status ∈ m.journal) :
      ∃ found decision, Did d m.journal call result.command found decision status := by
    obtain ⟨command, found, decision, did, rfl, -⟩ := lawful.did mem
    exact ⟨found, decision, by rwa [Decision.command_result]⟩
  cases h.warranted.answers call a told with
  | @reply n _ mem due =>
    cases n with
    | committed c outcome result status =>
      cases due
      cases handed
      obtain ⟨found, decision, this⟩ := did mem
      refine ⟨⟨found, decision, status, this⟩, fun found decision status this => ?_, .inl rfl⟩
      exact ⟨fun _ => .inl rfl, fun _ => (this.tells lawful mem).2.2⟩
    | arranged => cases due; cases handed
    | _ => cases due
  | @aborted seen command payload before loses =>
    cases handed
    obtain ⟨outcome, result, status, mem, rfl⟩ := loses.published
    have mem := before.subset mem
    obtain ⟨found, decision, this⟩ := did mem
    refine ⟨⟨found, decision, status, this⟩, fun found decision status this => ?_,
      .inr ⟨payload, loses.breaks, rfl⟩⟩
    have published := (this.tells lawful mem).2.1
    rw [published, tells_abortedResult_iff]
    exact ⟨.inr, fun holds => holds.resolve_left nofun⟩
  | panicked | undelivered => cases handed

/-- A start that led to the active state is reported as a failed handler. -/
theorem lost_start_not_told :
    ∃ m r found decision status, Reachable .forgetful 1 m ∧
      m.calls[0]? = some (.answered (.aborted r)) ∧
      Did .forgetful m.journal 0 .start found decision status ∧
      ¬ Tells r found decision status := by
  have reachable := reachable_run .forgetful 1 [.dispatch .detached .start .empty]
  have told : ((start .forgetful 1).run [.dispatch .detached .start .empty]).calls[0]? = some
      (.answered (.aborted (abortedResult .active .start (some "history exploded")))) := rfl
  obtain ⟨⟨found, decision, status, did⟩, tellsIff, -⟩ := result_tells_iff reachable told rfl
  refine ⟨_, _, found, decision, status, reachable, told, did, fun tells => ?_⟩
  rcases (tellsIff found decision status did).1 tells with whole | ⟨before, -⟩
  · cases whole
  · cases before

end Machine

end Lifecycle
