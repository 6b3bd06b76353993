import Lifecycle.Proofs.Growth
import Lifecycle.Proofs.Recovering

/-! Where a component gets on its own: nobody forces its state, and no handler asks for one of the
three states to which no command leads. It never recovers, it is in the error state only with a last
error and by way of a handler that failed, and it leaves the state in which it begins for good. -/

namespace Lifecycle

/-- No legal command leads to such a state. -/
def State.Special : State → Prop
  | unspecified | error | recovering => True
  | _ => False

def Outcome.AsksSpecial : Outcome → Prop
  | transition t => ∃ s : State, t.Names s ∧ s.Special
  | _ => False

/-- A dispatch that takes a component out of its first state: a success other than a health check's,
or a handler that failed. -/
def Note.Departs : Note → Prop
  | .committed _ outcome result _ =>
    (result.success ∧ result.command ≠ .healthCheck) ∨ ∃ o, outcome = some o ∧ o.Fails
  | _ => False

/-- In the journal nobody forces a state, and no handler asks for a special one. -/
structure OnItsOwn (j : List Note) : Prop where
  unforced : ∀ call status, .arranged call status ∉ j
  usual : ∀ call outcome result status, .committed call (some outcome) result status ∈ j →
    ¬ outcome.AsksSpecial

/-- What holds of a status; `departed` says whether the first state was left. -/
structure Status.Usual (s : Status) (departed : Prop) : Prop where
  well : s.state ≠ .recovering
  explained : s.state = .error → s.lastError.isSome
  first : s.state = .unspecified ↔ ¬ departed

theorem OnItsOwn.of_append {j k : List Note} (h : OnItsOwn (j ++ k)) : OnItsOwn j where
  unforced call status mem := h.unforced call status (List.mem_append_left _ mem)
  usual call outcome result status mem :=
    h.usual call outcome result status (List.mem_append_left _ mem)

def Note.isModest : Note → Bool
  | .arranged .. => false
  | .committed _ (some (.transition t)) .. => t == .default
  | _ => true

theorem OnItsOwn.of_modest {j : List Note} (modest : j.all Note.isModest) : OnItsOwn j where
  unforced call status mem := nomatch List.all_eq_true.1 modest _ mem
  usual call outcome result status mem asks := by
    have modest := List.all_eq_true.1 modest _ mem
    cases outcome with
    | transition t =>
      obtain ⟨s, names, -⟩ := asks
      cases eq_of_beq modest
      cases names
    | failed | panicked => exact asks

theorem Policy.Leads.not_special {p : Policy} {s next : State} {command : Command}
    (leads : p.Leads s command next) (moves : command ≠ .healthCheck) : ¬ next.Special := by
  cases leads with
  | healthCheck => exact absurd rfl moves
  | _ => exact not_false

namespace Status.Usual

variable {found s : Status} {departed departs : Prop}

theorem of_same (h : found.Usual departed) (stays : ¬ departs) :
    found.Usual (departed ∨ departs) where
  well := h.well
  explained := h.explained
  first := by rw [h.first, or_iff_left stays]

theorem of_refused (h : found.Usual departed) (stays : ¬ departs) (text : String) :
    Status.Usual ⟨found.state, some text⟩ (departed ∨ departs) where
  well := h.well
  explained _ := rfl
  first := by rw [h.first, or_iff_left stays]

theorem of_ordinary (plain : ¬ s.state.Special) (now : departs) :
    s.Usual (departed ∨ departs) where
  well same := by simp [same, State.Special] at plain
  explained same := by simp [same, State.Special] at plain
  first := by
    refine ⟨fun same => ?_, fun still => absurd (.inr now) still⟩
    simp [same, State.Special] at plain

theorem of_failed (text : String) (now : departs) :
    Status.Usual ⟨.error, some text⟩ (departed ∨ departs) where
  well := nofun
  explained _ := rfl
  first := ⟨nofun, fun still => absurd (.inr now) still⟩

end Status.Usual

theorem Prescribed.usual {d : Dispatcher} {found : Status} {command : Command}
    {outcome : Option Outcome} {effect : Effect} {departed : Prop} (call : Nat)
    (h : Prescribed d found command outcome effect) (usual : found.Usual departed)
    (plain : ∀ o, outcome = some o → ¬ o.AsksSpecial) : effect.status.Usual
      (departed ∨ (Note.committed call outcome effect.result effect.status).Departs) := by
  cases h with
  | illegal | unhandled => exact usual.of_refused (by simp [Note.Departs, Effect.refused]) _
  | strays | unknownCode =>
    exact usual.of_refused (by simp [Note.Departs, Effect.refused, Outcome.Fails]) _
  | healthy => exact usual.of_same (by simp [Note.Departs, Effect.checked, Outcome.Fails])
  | @default next admits moves =>
    have plain : ¬ (Effect.moved command found next).status.state.Special :=
      admits.legal.not_special moves
    exact .of_ordinary plain (Or.inl ⟨rfl, moves⟩)
  | @named next t s admits moves names =>
    have plain : ¬ (Effect.moved command found s).status.state.Special :=
      fun special => plain _ rfl ⟨s, names, special⟩
    exact .of_ordinary plain (Or.inl ⟨rfl, moves⟩)
  | failed | panicked | panickedMutely => exact .of_failed _ (Or.inr ⟨_, rfl, trivial⟩)

theorem Prescribed.fails_of_error {d : Dispatcher} {found : Status} {command : Command}
    {outcome : Option Outcome} {effect : Effect} (h : Prescribed d found command outcome effect)
    (plain : ∀ o, outcome = some o → ¬ o.AsksSpecial) (well : found.state ≠ .error)
    (error : effect.status.state = .error) : ∃ o, outcome = some o ∧ o.Fails := by
  cases h with
  | illegal | unhandled | strays | unknownCode | healthy => exact absurd error well
  | default admits moves => cases error; exact absurd trivial (admits.legal.not_special moves)
  | named _ _ names => cases error; exact absurd ⟨_, names, trivial⟩ (plain _ rfl)
  | failed | panicked | panickedMutely => exact ⟨_, rfl, trivial⟩

namespace Lawful

variable {d : Dispatcher} {j k : List Note} {a : Standing}

theorem usual (fresh : d.status = {}) (h : Lawful d j a) (own : OnItsOwn j) :
    (statusAfter d.status j).Usual (∃ n ∈ j, n.Departs) := by
  induction h with
  | nil =>
    rw [fresh]
    exact ⟨nofun, nofun, by simp [statusAfter]⟩
  | @snoc j a n b before next ih =>
    have earlier := ih own.of_append
    have split : (∃ k ∈ j ++ [n], k.Departs) ↔ (∃ k ∈ j, k.Departs) ∨ n.Departs := by
      simp [or_and_right, exists_or]
    rw [split, statusAfter_snoc]
    cases n with
    | arranged call status =>
      exact absurd (List.mem_append_right _ (List.mem_singleton_self _)) (own.unforced call status)
    | committed call outcome result status =>
      obtain ⟨t, command, args, effect, -, -, -, -, prescribed, rfl, rfl⟩ := before.prescribed next
      refine prescribed.usual call earlier fun o ended => ?_
      subst ended
      exact own.usual call o effect.result effect.status (by simp)
    | _ => exact earlier.of_same not_false

theorem fails_of_error {n : Note} {status : Status} (h : Lawful d (j ++ n :: k) a)
    (own : OnItsOwn (j ++ n :: k)) (published : n.status? = some status)
    (well : (statusAfter d.status j).state ≠ .error) (error : status.state = .error) :
    ∃ call outcome result, n = .committed call (some outcome) result status ∧ outcome.Fails ∧
      Ran d (j ++ n :: k) call outcome := by
  have mem : n ∈ j ++ n :: k := List.mem_append_right _ List.mem_cons_self
  obtain ⟨a, c, upTo, next, -⟩ := h.at_note
  cases n with
  | arranged call => exact absurd mem (own.unforced call _)
  | committed call outcome result =>
    cases published
    obtain ⟨t, command, args, effect, -, -, -, -, prescribed, rfl, rfl⟩ := upTo.prescribed next
    obtain ⟨o, rfl, fails⟩ := prescribed.fails_of_error (fun o ended => by
      subst ended
      exact own.usual call o _ _ mem) well error
    exact ⟨call, o, _, rfl, fails, h.ran mem⟩
  | _ => cases published

end Lawful

namespace Machine

structure GetsAround (d : Dispatcher) (m : Machine) : Prop where
  well : m.state ≠ .recovering
  fails : ∀ before n since status, m.journal = before ++ n :: since → n.status? = some status →
    (statusAfter d.status before).state ≠ .error → status.state = .error →
    ∃ call outcome result, n = .committed call (some outcome) result status ∧ outcome.Fails ∧
      Ran d m.journal call outcome
  explained : m.state = .error → m.status.lastError.isSome
  first : m.state = .unspecified ↔ ∀ call outcome result status,
    .committed call outcome result status ∈ m.journal →
    (result.success → result.command = .healthCheck) ∧ ∀ o, outcome = some o → ¬ o.Fails
  forGood : ∀ later : Machine, Reaches m later → OnItsOwn later.journal →
    m.state ≠ .unspecified → later.state ≠ .unspecified

variable {d : Dispatcher} {capacity : Nat} {m m' : Machine}

theorem Reachable.usual (fresh : d.status = {}) (h : Reachable d capacity m)
    (own : OnItsOwn m.journal) : m.status.Usual (∃ n ∈ m.journal, n.Departs) := by
  have usual := h.lawful.usual fresh own
  rwa [← h.lawful.status_eq] at usual

/-- A component that nobody forces, and whose handlers ask for no special state, never recovers,
fails only with its handlers, and leaves its first state for good with the first success or
failure. -/
theorem gets_around_on_its_own (fresh : d.status = {}) (h : Reachable d capacity m)
    (own : OnItsOwn m.journal) : GetsAround d m := by
  have usual := h.usual fresh own
  constructor
  case well => exact usual.well
  case explained => exact usual.explained
  case fails =>
    intro before n since status same published well error
    have lawful := h.lawful
    rw [same] at lawful own ⊢
    exact lawful.fails_of_error own published well error
  case first =>
    refine usual.first.trans ⟨fun none call outcome result status mem => ?_, ?_⟩
    · refine ⟨fun success => ?_, fun o ended fails => none ⟨_, mem, .inr ⟨o, ended, fails⟩⟩⟩
      exact Decidable.byContradiction fun other => none ⟨_, mem, .inl ⟨success, other⟩⟩
    · rintro stays ⟨n, mem, departs⟩
      cases n with
      | committed call outcome result status =>
        obtain ⟨checks, works⟩ := stays call outcome result status mem
        rcases departs with ⟨success, other⟩ | ⟨o, ended, fails⟩
        · exact other (checks success)
        · exact works o ended fails
      | _ => exact departs
  case forGood =>
    intro later reaches own' departed same
    have reachable : Reachable d capacity later := h.trans reaches
    refine (reachable.usual fresh own').first.1 same ?_
    obtain ⟨n, mem, departs⟩ := Classical.not_not.1 fun none => departed (usual.first.2 none)
    exact ⟨n, reaches.subset mem, departs⟩

/-- Health is checked, a start succeeds, a resume is refused, and the second health check fails. -/
theorem gets_around_to_error_by_second_check :
    ∃ m, Reachable .tiring 1 m ∧ OnItsOwn m.journal ∧ GetsAround .tiring m ∧
      m.status = ⟨.error, some "tired"⟩ ∧ m.journal.countP (Note.isRunOf .start) = 1 := by
  have reachable := reachable_run .tiring 1
    [.dispatch .detached .healthCheck .empty, .dispatch .queued .start .empty,
      .dispatch .attached .resume .empty, .dispatch .queued .healthCheck .empty]
  have around := gets_around_on_its_own rfl reachable (OnItsOwn.of_modest rfl)
  refine ⟨_, reachable, OnItsOwn.of_modest ?_, around, ?_, ?_⟩ <;> rfl

end Machine

end Lifecycle
