import Lifecycle.Proofs.Results

/-! What a dispatch leads to by contract, case by case: the transition table entry by entry, and for
every way in which a dispatch can end its result, the status after it and its event. Main statement:
a dispatcher decides just as it is prescribed. -/

namespace Lifecycle

/-- Where a legal command leads by default. What is not listed is illegal. -/
inductive Policy.Leads (p : Policy) : State → Command → State → Prop
  | start : Leads p .unspecified .start .active
  | startStopped : Leads p .stopped .start .active
  | startFailed (permissive : p.restartFromError) : Leads p .error .start .active
  | stop : Leads p .active .stop .stopped
  | stopPaused : Leads p .paused .stop .stopped
  | stopFailed : Leads p .error .stop .stopped
  | pause : Leads p .active .pause .paused
  | resume : Leads p .paused .resume .active
  | reload : Leads p .active .reload .active
  | reloadPaused : Leads p .paused .reload .paused
  | healthCheck (s : State) : Leads p s .healthCheck s
  | recover : Leads p .error .recover .active

namespace Policy

variable {p : Policy} {s next : State} {command : Command}

theorem evaluate_eq_allowed_iff :
    p.evaluate s command = .allowed next ↔ p.Leads s command next := by
  constructor
  · obtain ⟨_ | _⟩ := p <;> cases s <;> cases command <;> rintro ⟨⟩ <;> constructor
    rfl
  · intro leads
    cases leads with
    | healthCheck => exact p.evaluate_healthCheck s
    | startFailed permissive =>
      rw [evaluate, permissive]
      rfl
    | _ => obtain ⟨_ | _⟩ := p <;> rfl

theorem evaluate_eq_rejected_iff :
    p.evaluate s command = .rejected ↔ ∀ next, ¬ p.Leads s command next := by
  simp only [← evaluate_eq_allowed_iff]
  cases p.evaluate s command <;> simp

theorem Leads.stays_of_checks (leads : p.Leads s .healthCheck next) : next = s := by
  cases leads
  rfl

theorem Leads.checks_of_recovering (leads : p.Leads .recovering command next) :
    command = .healthCheck := by
  cases leads
  rfl

end Policy

inductive Transition.Names : Transition → State → Prop
  | state (s : State) : Names (.moveTo s) s
  | code (s : State) : Names (.code s.code) s

def Outcome.Fails : Outcome → Prop
  | transition _ => False
  | failed _ | panicked _ => True

/-- Everything by which a dispatch shows: what its caller is told, what is published, and what is
handed to observers. -/
structure Effect where
  result : Result
  status : Status
  event : Event

namespace Effect

variable (command : Command) (found : Status)

def moved (next : State) : Effect where
  result := ⟨command, found.state, next, true, none, none⟩
  status := ⟨next, none⟩
  event := .transitioned command found.state next

def checked : Effect where
  result := ⟨.healthCheck, found.state, found.state, true, none, none⟩
  status := found
  event := .healthChecked found.state

def refused (kind : FailureKind) (text : String) : Effect where
  result := ⟨command, found.state, found.state, false, some text, some kind⟩
  status := ⟨found.state, some text⟩
  event := .rejected command found.state kind

def failed (text : String) : Effect where
  result := ⟨command, found.state, .error, false, some text, some .handlerFailure⟩
  status := ⟨.error, some text⟩
  event := .handlerFailed command found.state

end Effect

structure Dispatcher.Admits (d : Dispatcher) (found : Status) (command : Command) (next : State) :
    Prop where
  legal : d.policy.Leads found.state command next
  handled : (d.registry.handler? command).isSome

/-- What a dispatch that was admitted in the status `found` leads to, given how its handler ended if
one ran. -/
inductive Prescribed (d : Dispatcher) (found : Status) (command : Command) :
    Option Outcome → Effect → Prop
  | illegal (outside : ∀ next, ¬ d.policy.Leads found.state command next) :
    Prescribed d found command none (.refused command found .illegalTransition
      s!"illegal transition: {command.name} from {found.state.name}")
  | unhandled {next} (legal : d.policy.Leads found.state command next)
    (nobody : d.registry.handler? command = none) :
    Prescribed d found command none (.refused command found .unhandledCommand
      s!"no handler registered for {command.name}")
  | default {next} (admits : d.Admits found command next) (moves : command ≠ .healthCheck) :
    Prescribed d found command (some (.transition .default)) (.moved command found next)
  | named {next t s} (admits : d.Admits found command next) (moves : command ≠ .healthCheck)
    (names : Transition.Names t s) :
    Prescribed d found command (some (.transition t)) (.moved command found s)
  | healthy {next t} (admits : d.Admits found command next) (checks : command = .healthCheck)
    (stays : t = .default ∨ Transition.Names t found.state) :
    Prescribed d found command (some (.transition t)) (.checked found)
  | strays {next t s} (admits : d.Admits found command next) (checks : command = .healthCheck)
    (names : Transition.Names t s) (other : s ≠ found.state) :
    Prescribed d found command (some (.transition t)) (.refused command found .contractViolation
      s!"handler for {command.name} returned {s.name}, which is not a valid override")
  | unknownCode {next n} (admits : d.Admits found command next)
    (unknown : ∀ s : State, s.code ≠ n) :
    Prescribed d found command (some (.transition (.code n)))
      (.refused command found .contractViolation
        s!"handler for {command.name} returned invalid state code {n}")
  | failed {next} (admits : d.Admits found command next) (text : String) :
    Prescribed d found command (some (.failed text)) (.failed command found text)
  | panicked {next} (admits : d.Admits found command next) (text : String) :
    Prescribed d found command (some (.panicked (some text)))
      (.failed command found s!"handler for {command.name} panicked: {text}")
  | panickedMutely {next} (admits : d.Admits found command next) :
    Prescribed d found command (some (.panicked none))
      (.failed command found s!"handler for {command.name} panicked: unknown panic payload")

def Decision.effect (command : Command) (found : Status) (decision : Decision) : Effect where
  result := decision.result command found.state
  status := decision.status command found
  event := decision.event command found.state

namespace Decision

variable {command : Command} {found : Status}

theorem effect_commit_of_moves (moves : command ≠ .healthCheck) (next : State) :
    (commit next).effect command found = .moved command found next := by
  simp [effect, result, status, event, Status.commit, Result.succeeded, Effect.moved, moves]

theorem effect_commit_of_checks (checks : command = .healthCheck) :
    (commit found.state).effect command found = .checked found := by
  simp [effect, result, status, event, Result.succeeded, Effect.checked, checks]

theorem effect_refuse (failure : Failure) : (refuse failure).effect command found =
    .refused command found failure.kind failure.message := rfl

theorem effect_fail (message : String) :
    (fail (.handlerFailure command message)).effect command found = .failed command found message :=
  rfl

end Decision

section messages

variable (command : Command)

theorem Failure.message_forbiddenOverride (s : State) : (forbiddenOverride command s).message =
    s!"handler for {command.name} returned {s.name}, which is not a valid override" :=
  (String.append_assoc ..).symm

theorem Failure.message_invalidCode (n : Int) : (invalidCode command n).message =
    s!"handler for {command.name} returned invalid state code {n}" :=
  calc "handler for " ++ command.name ++ " returned " ++ ("invalid state code " ++ toString n)
    _ = "handler for " ++ command.name ++ " returned " ++ "invalid state code " ++ toString n :=
      (String.append_assoc ..).symm
    _ = "handler for " ++ command.name ++ (" returned " ++ "invalid state code ") ++ toString n :=
      congrArg (· ++ toString n) (String.append_assoc ..)
    _ = "handler for " ++ command.name ++ " returned invalid state code " ++ toString n := rfl

theorem panicMessage_none :
    panicMessage command none = s!"handler for {command.name} panicked: unknown panic payload" :=
  String.append_assoc ..

end messages

section resolve

variable {command : Command} {previous fallback : State}

theorem Transition.resolve_of_names {t : Transition} {s : State} (names : t.Names s) :
    t.resolve command previous fallback = resolve.permitted command previous s := by
  cases names with
  | state => rfl
  | code => rw [resolve, State.ofCode_code]

theorem Transition.permitted_of_moves (moves : command ≠ .healthCheck) (s : State) :
    resolve.permitted command previous s = .ok s :=
  if_neg fun strays => moves strays.1

theorem Transition.names_cases (t : Transition) : t = .default ∨ (∃ s, t.Names s) ∨
    ∃ n, t = .code n ∧ (∀ s : State, s.code ≠ n) ∧ State.ofCode n = .error ⟨n⟩ := by
  cases t with
  | default => exact .inl rfl
  | moveTo s => exact .inr (.inl ⟨s, .state s⟩)
  | code n =>
    cases decoded : State.ofCode n with
    | ok s =>
      obtain rfl := State.ofCode_eq_ok_iff.1 decoded
      exact .inr (.inl ⟨s, .code s⟩)
    | error e =>
      have unknown (s : State) (same : s.code = n) : False := by
        rw [State.ofCode_eq_ok_iff.2 same] at decoded
        cases decoded
      have kept : e = ⟨n⟩ := by
        unfold State.ofCode at decoded
        split at decoded <;> cases decoded
        rfl
      exact .inr (.inr ⟨n, rfl, unknown, kept ▸ decoded⟩)

end resolve

namespace Dispatcher

variable {d : Dispatcher} {found : Status} {command : Command} {next : State}

theorem Admits.of_prepare {handler : Handler}
    (prepared : (d.withStatus found).prepare command = .ok (next, handler)) :
    d.Admits found command next := by
  have handled := handler_of_prepare prepared
  unfold prepare at prepared
  split at prepared
  · cases prepared
  · next leads =>
    split at prepared <;> cases prepared
    exact ⟨Policy.evaluate_eq_allowed_iff.1 leads, Option.isSome_iff_exists.2 ⟨_, handled⟩⟩

theorem Admits.prescribes_transition (admits : d.Admits found command next) (t : Transition) :
    Prescribed d found command (some (.transition t))
      (((Outcome.transition t).decide command found.state next).effect command found) := by
  by_cases checks : command = .healthCheck
  · have stays : next = found.state := by
      have leads := admits.legal
      rw [checks] at leads
      exact leads.stays_of_checks
    rcases t.names_cases with rfl | ⟨s, names⟩ | ⟨n, rfl, unknown, refuses⟩
    · have commits : (Outcome.transition .default).decide command found.state next =
          .commit found.state := by rw [stays]; rfl
      rw [commits, Decision.effect_commit_of_checks checks]
      exact .healthy admits checks (.inl rfl)
    · by_cases same : s = found.state
      · have commits : (Outcome.transition t).decide command found.state next =
            .commit found.state := by
          rw [Outcome.decide, Transition.resolve_of_names names, Transition.resolve.permitted,
            if_neg fun strays => strays.2 same, same]
        rw [commits, Decision.effect_commit_of_checks checks]
        exact .healthy admits checks (.inr (same ▸ names))
      · have refused : (Outcome.transition t).decide command found.state next =
            .refuse (.forbiddenOverride command s) := by
          rw [Outcome.decide, Transition.resolve_of_names names, Transition.resolve.permitted,
            if_pos ⟨checks, same⟩]
        rw [refused, Decision.effect_refuse, Failure.message_forbiddenOverride]
        exact .strays admits checks names same
    · have refused : (Outcome.transition (.code n)).decide command found.state next =
          .refuse (.invalidCode command n) := by
        simp only [Outcome.decide, Transition.resolve, refuses]
      rw [refused, Decision.effect_refuse, Failure.message_invalidCode]
      exact .unknownCode admits unknown
  · rcases t.names_cases with rfl | ⟨s, names⟩ | ⟨n, rfl, unknown, refuses⟩
    · have commits : (Outcome.transition .default).decide command found.state next =
          .commit next := rfl
      rw [commits, Decision.effect_commit_of_moves checks]
      exact .default admits checks
    · have commits : (Outcome.transition t).decide command found.state next = .commit s := by
        rw [Outcome.decide, Transition.resolve_of_names names,
          Transition.permitted_of_moves checks]
      rw [commits, Decision.effect_commit_of_moves checks]
      exact .named admits checks names
    · have refused : (Outcome.transition (.code n)).decide command found.state next =
          .refuse (.invalidCode command n) := by
        simp only [Outcome.decide, Transition.resolve, refuses]
      rw [refused, Decision.effect_refuse, Failure.message_invalidCode]
      exact .unknownCode admits unknown

theorem Admits.prescribes (admits : d.Admits found command next) (outcome : Outcome) :
    Prescribed d found command (some outcome)
      ((outcome.decide command found.state next).effect command found) := by
  cases outcome with
  | transition t => exact admits.prescribes_transition t
  | failed text => exact .failed admits text
  | panicked payload =>
    cases payload with
    | none =>
      rw [Outcome.decide, Decision.effect_fail, panicMessage_none]
      exact .panickedMutely admits
    | some text => exact .panicked admits text

theorem prescribed_of_refused {failure : Failure}
    (refused : (d.withStatus found).prepare command = .error failure) :
    Prescribed d found command none ((Decision.refuse failure).effect command found) := by
  unfold prepare at refused
  split at refused
  · next rejected =>
    cases refused
    exact .illegal (Policy.evaluate_eq_rejected_iff.1 rejected)
  · next leads =>
    split at refused
    · next nobody =>
      cases refused
      exact .unhandled (Policy.evaluate_eq_allowed_iff.1 leads) nobody
    · cases refused

theorem prescribed_of_decision {outcome : Option Outcome} {decision : Decision}
    (decided : d.decision? found command outcome = some decision) :
    Prescribed d found command outcome (decision.effect command found) := by
  unfold decision? at decided
  split at decided
  · next refused =>
    cases decided
    exact prescribed_of_refused refused
  · next prepared =>
    cases decided
    exact (Admits.of_prepare prepared).prescribes _
  · cases decided

end Dispatcher

namespace Prescribed

variable {d : Dispatcher} {found : Status} {command : Command} {outcome : Option Outcome}
  {effect : Effect}

theorem of_illegal (h : Prescribed d found command outcome effect)
    (outside : ∀ next, ¬ d.policy.Leads found.state command next) :
    outcome = none ∧ effect = .refused command found .illegalTransition
      s!"illegal transition: {command.name} from {found.state.name}" := by
  cases h with
  | illegal => exact ⟨rfl, rfl⟩
  | unhandled legal => exact absurd legal (outside _)
  | default admits | named admits | healthy admits | strays admits | unknownCode admits
  | failed admits | panicked admits | panickedMutely admits =>
    exact absurd admits.legal (outside _)

theorem stays_or_fails (h : Prescribed d found .healthCheck outcome effect) :
    effect.status.state = found.state ∨
      effect.status.state = .error ∧ effect.result.success = false ∧
        effect.result.errorKind = some .handlerFailure ∧ ∃ o, outcome = some o ∧ o.Fails := by
  cases h with
  | default _ moves | named _ moves => exact absurd rfl moves
  | illegal | unhandled | healthy | strays | unknownCode => exact .inl rfl
  | failed | panicked | panickedMutely => exact .inr ⟨rfl, rfl, rfl, _, rfl, trivial⟩

end Prescribed

namespace Lawful

variable {d : Dispatcher} {j : List Note} {a b : Standing} {call : Nat}

theorem prescribed {outcome : Option Outcome} {result : Result} {status : Status}
    (h : Lawful d j a) (next : Follows d j a (.committed call outcome result status) b) :
    ∃ t command args effect, t.call = call ∧ a.phase.ticket? = some t ∧ a.phase.undecided ∧
      t.work = .dispatch command args ∧
      Prescribed d (statusAfter d.status j) command outcome effect ∧
      result = effect.result ∧ status = effect.status := by
  obtain ⟨t, command, args, decision, same, inside, undecided, work, decided, result, status, -⟩ :=
    h.decision next
  exact ⟨t, command, args, _, same, inside, undecided, work,
    Dispatcher.prescribed_of_decision decided, result, status⟩

theorem admits_of_ran {context : Context} {observed : Bool} (h : Lawful d j a)
    (mem : .ran call context observed ∈ j) : ∃ before since next,
      j = before ++ .admitted call :: since ∧
        d.Admits (statusAfter d.status before) context.command next := by
  obtain ⟨k, l, rfl⟩ := List.append_of_mem mem
  obtain ⟨a, c, upTo, next, -⟩ := h.at_note
  cases next with
  | aside silent => cases silent
  | @run s t command args fallback handler work allowed =>
    obtain ⟨before, since, rfl, -, -, found⟩ := upTo.admission rfl
    have admits : d.Admits s command fallback := .of_prepare allowed
    rw [show s = statusAfter d.status before from found rfl] at admits
    exact ⟨before, _, fallback, List.append_assoc .., admits⟩

end Lawful

end Lifecycle
