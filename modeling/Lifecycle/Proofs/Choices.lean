import Lifecycle.Dispatcher.Builder
import Lifecycle.Proofs.Registrations

/-! Choices for a dispatcher, in any order and number. Main statement: only the last one of each
kind counts; a capacity of zero is refused whatever else was chosen, a repeated handler only where
no ready registry was given at all, and otherwise the dispatcher is the one that the last choices
and the defaults describe. -/

namespace Lifecycle.Dispatcher

def Choice.config? : Choice → Option Config
  | .config c => some c
  | _ => none

def Choice.handlers? : Choice → Option Registry.Builder
  | .handlers h => some h
  | _ => none

def Choice.registry? : Choice → Option Registry
  | .registry r => some r
  | _ => none

def Choice.ledger? : Choice → Option Ledger
  | .ledger l => some l
  | _ => none

def Choice.telemetry? : Choice → Option Telemetry
  | .telemetry t => some t
  | _ => none

namespace Builder

section last

variable {α : Type} {kind : Choice → Option α} {cs : List Choice} {c : Choice}

def last (kind : Choice → Option α) (cs : List Choice) : Option α := (cs.filterMap kind).getLast?

theorem last_snoc : last kind (cs ++ [c]) = (kind c).or (last kind cs) := by
  rw [last, List.filterMap_append]
  cases chosen : kind c with
  | none => simp [last, chosen]
  | some x => simp [chosen]

theorem last_eq_none_iff : last kind cs = none ↔ ∀ c ∈ cs, kind c = none := by
  rw [last, List.getLast?_eq_none_iff, List.filterMap_eq_nil_iff]

end last

def settings (cs : List Choice) : Config := (last Choice.config? cs).getD {}

def assembled (cs : List Choice) (registry : Registry) : Dispatcher where
  policy := (settings cs).policy
  registry
  ledger := (last Choice.ledger? cs).getD { history := .withCapacity (settings cs).historyCapacity }
  telemetry := (last Choice.telemetry? cs).getD { sink := .discard }

variable {cs cs' : List Choice}

theorem ofChoices_eq (cs : List Choice) : ofChoices cs = {
    config := settings cs
    handlers := last Choice.handlers? cs
    registry := last Choice.registry? cs
    ledger := last Choice.ledger? cs
    telemetry := (last Choice.telemetry? cs).getD { sink := .discard } } := by
  induction cs using List.reverseRecOn with
  | nil => rfl
  | append_singleton cs c ih =>
    have snoc : ofChoices (cs ++ [c]) = (ofChoices cs).choose c := List.foldl_append
    rw [snoc, ih]
    simp only [settings, last_snoc]
    cases c <;> rfl

theorem build_of_invalid (none : (settings cs).historyCapacity = 0) :
    (ofChoices cs).build = .error (.invalidConfig (.historyCapacity 0)) := by
  have invalid : (settings cs).validate = .error (.historyCapacity 0) := if_pos none
  rw [ofChoices_eq, build, invalid]
  rfl

theorem build_of_valid (some : (settings cs).historyCapacity ≠ 0) :
    (ofChoices cs).build = (ofChoices cs).buildRegistry.map (assembled cs) := by
  have valid : (settings cs).validate = .ok () := Config.validate_eq_ok_iff.2 some
  rw [ofChoices_eq, build, valid]
  simp only [bind, Except.bind, Except.mapError]
  cases buildRegistry _ <;> rfl

theorem buildRegistry_of_ready {r : Registry} (ready : last Choice.registry? cs = some r) :
    (ofChoices cs).buildRegistry = .ok r := by
  rw [ofChoices_eq, buildRegistry, ready]

theorem buildRegistry_of_handlers {h : Registry.Builder}
    (unready : last Choice.registry? cs = none) (handlers : last Choice.handlers? cs = some h) :
    (ofChoices cs).buildRegistry = h.build.mapError .duplicateHandler := by
  rw [ofChoices_eq, buildRegistry, unready, handlers]

theorem buildRegistry_of_none (unready : last Choice.registry? cs = none)
    (unhandled : last Choice.handlers? cs = none) : (ofChoices cs).buildRegistry = .ok .empty := by
  rw [ofChoices_eq, buildRegistry, unready, unhandled]

theorem buildRegistry_eq_error_iff {e : BuildError} : (ofChoices cs).buildRegistry = .error e ↔
    last Choice.registry? cs = none ∧
      ∃ h ∈ last Choice.handlers? cs, ∃ d, h.build = .error d ∧ .duplicateHandler d = e := by
  cases ready : last Choice.registry? cs with
  | some r =>
    rw [buildRegistry_of_ready ready]
    exact ⟨nofun, nofun⟩
  | none =>
    cases handlers : last Choice.handlers? cs with
    | none =>
      rw [buildRegistry_of_none ready handlers]
      exact ⟨nofun, nofun⟩
    | some h =>
      rw [buildRegistry_of_handlers ready handlers]
      cases built : h.build <;> simp [Except.mapError, built]

theorem build_eq_error_iff {e : BuildError} : (ofChoices cs).build = .error e ↔
    (settings cs).historyCapacity = 0 ∧ .invalidConfig (.historyCapacity 0) = e ∨
      (settings cs).historyCapacity ≠ 0 ∧ (ofChoices cs).buildRegistry = .error e := by
  by_cases none : (settings cs).historyCapacity = 0
  · rw [build_of_invalid none]
    simp [none]
  · rw [build_of_valid none]
    cases (ofChoices cs).buildRegistry <;> simp [Except.map, none]

theorem not_mem_registry_iff : (∀ r, .registry r ∉ cs) ↔ last Choice.registry? cs = none := by
  rw [last_eq_none_iff]
  constructor
  · intro absent c mem
    cases c with
    | registry r => exact absurd mem (absent r)
    | _ => rfl
  · intro none r mem
    cases none _ mem

theorem settings_invalid_iff : (settings cs).historyCapacity = 0 ↔
    ∃ c, last Choice.config? cs = some c ∧ c.historyCapacity = 0 := by
  rw [settings]
  cases last Choice.config? cs with
  | none => exact ⟨nofun, nofun⟩
  | some c => simp

theorem build_of_ready {r : Registry} (some : (settings cs).historyCapacity ≠ 0)
    (ready : last Choice.registry? cs = Option.some r) :
    (ofChoices cs).build = .ok (assembled cs r) := by
  rw [build_of_valid some, buildRegistry_of_ready ready]
  rfl

structure SameLast (cs cs' : List Choice) : Prop where
  config : last Choice.config? cs = last Choice.config? cs'
  handlers : last Choice.handlers? cs = last Choice.handlers? cs'
  registry : last Choice.registry? cs = last Choice.registry? cs'
  ledger : last Choice.ledger? cs = last Choice.ledger? cs'
  telemetry : last Choice.telemetry? cs = last Choice.telemetry? cs'

theorem SameLast.ofChoices_eq (same : SameLast cs cs') : ofChoices cs = ofChoices cs' := by
  rw [Builder.ofChoices_eq, Builder.ofChoices_eq, settings, settings, same.config, same.handlers,
    same.registry, same.ledger, same.telemetry]

open Registry.Builder in
/-- What choices come to. Where a dispatcher is built, it is told as a whole, so that whatever is
done with it goes as with the one it is told to be. -/
structure LastCount (cs : List Choice) : Prop where
  only {cs' : List Choice} : SameLast cs cs' → (ofChoices cs).build = (ofChoices cs').build
  invalid {e : Config.Invalid} : (ofChoices cs).build = .error (.invalidConfig e) ↔
    ∃ c, last Choice.config? cs = some c ∧ c.historyCapacity = 0 ∧ e = .historyCapacity 0
  /-- The first repetition in the last row of registrations is reported, unless there is a
  registry. -/
  duplicate {registrations : List (Command × Handler)} {c : Command} :
    last Choice.handlers? cs = some (.ofList registrations) →
    ((ofChoices cs).build = .error (.duplicateHandler ⟨c⟩) ↔
      (settings cs).historyCapacity ≠ 0 ∧ (∀ r, .registry r ∉ cs) ∧ FirstRepeats registrations c)
  unhandled {c : Command} : last Choice.handlers? cs = none →
    (ofChoices cs).build ≠ .error (.duplicateHandler ⟨c⟩)
  /-- In all other cases the build succeeds: with the last registry, with that of the last row of
  registrations, or with none. -/
  ready {r : Registry} : (settings cs).historyCapacity ≠ 0 → last Choice.registry? cs = some r →
    (ofChoices cs).build = .ok (assembled cs r)
  handled {registrations : List (Command × Handler)} : (settings cs).historyCapacity ≠ 0 →
    (∀ r, .registry r ∉ cs) → last Choice.handlers? cs = some (.ofList registrations) →
    (named registrations).Nodup →
    ∃ r, MadeOf registrations r ∧ (ofChoices cs).build = .ok (assembled cs r)
  bare : (settings cs).historyCapacity ≠ 0 → (∀ r, .registry r ∉ cs) →
    last Choice.handlers? cs = none → (ofChoices cs).build = .ok (assembled cs .empty)
  alone (r : Registry) : (ofChoices [.registry r]).build = .ok (.ofRegistry r)

theorem last_choices_count (cs : List Choice) : LastCount cs where
  only same := by rw [same.ofChoices_eq]
  invalid {e} := by
    rw [build_eq_error_iff, buildRegistry_eq_error_iff, settings_invalid_iff]
    constructor
    · rintro (⟨⟨c, chosen, zero⟩, ⟨⟩⟩ | ⟨-, -, h, -, d, -, ⟨⟩⟩)
      exact ⟨c, chosen, zero, rfl⟩
    · rintro ⟨c, chosen, zero, rfl⟩
      exact .inl ⟨⟨c, chosen, zero⟩, rfl⟩
  duplicate {registrations c} handlers := by
    rw [build_eq_error_iff, buildRegistry_eq_error_iff, not_mem_registry_iff, handlers,
      ← Registry.Builder.repeated_eq_some_iff, ← Registry.Builder.build_eq_error_iff]
    simp
  unhandled {c} unhandled := by
    rw [Ne, build_eq_error_iff, buildRegistry_eq_error_iff, unhandled]
    simp
  ready := build_of_ready
  handled {registrations} some unready handlers nodup := by
    refine ⟨_, Registry.Builder.madeOf_ofList nodup, ?_⟩
    rw [build_of_valid some, buildRegistry_of_handlers (not_mem_registry_iff.1 unready) handlers,
      Registry.Builder.build_ofList nodup]
    rfl
  bare some unready unhandled := by
    rw [build_of_valid some, buildRegistry_of_none (not_mem_registry_iff.1 unready) unhandled]
    rfl
  alone r := by
    have default : (settings [.registry r]).historyCapacity ≠ 0 := Nat.succ_ne_zero 255
    exact build_of_ready default rfl

open Registry.Builder in
/-- A row with repetitions and a capacity of zero, both replaced later. -/
def mended : List Choice :=
  [.handlers (.ofList twoRepeated), .config ⟨true, 0⟩, .handlers (.ofList (twoRepeated.take 3)),
    .config ⟨true, 2⟩]

open Registry.Builder in
theorem last_choices_count_of_mended :
    (∃ r, MadeOf (twoRepeated.take 3) r ∧ (ofChoices mended).build = .ok (assembled mended r)) ∧
      (ofChoices mended.reverse).build = .error (.invalidConfig (.historyCapacity 0)) ∧
      (ofChoices (mended.reverse ++ [.config {}])).build = .error (.duplicateHandler ⟨.start⟩) ∧
      (ofChoices (.registry .empty :: mended.reverse ++ [.config {}])).build =
        .ok (.ofRegistry .empty) := by
  have unready : ∀ r, Choice.registry r ∉ mended := not_mem_registry_iff.2 rfl
  have unready' : ∀ r, Choice.registry r ∉ mended.reverse ++ [.config {}] :=
    not_mem_registry_iff.2 rfl
  have repeats : FirstRepeats twoRepeated .start :=
    ⟨twoRepeated.take 3, .accept, [(.stop, .accept)], rfl, by decide, by decide⟩
  have two : (settings mended).historyCapacity ≠ 0 := Nat.succ_ne_zero 1
  have default : (settings (mended.reverse ++ [.config {}])).historyCapacity ≠ 0 :=
    Nat.succ_ne_zero 255
  have nodup : (named (twoRepeated.take 3)).Nodup := by decide
  exact ⟨(last_choices_count mended).handled two unready rfl nodup,
    (last_choices_count mended.reverse).invalid.2 ⟨_, rfl, rfl, rfl⟩,
    ((last_choices_count (mended.reverse ++ [.config {}])).duplicate rfl).2
      ⟨default, unready', repeats⟩,
    (last_choices_count (.registry .empty :: mended.reverse ++ [.config {}])).ready default rfl⟩

end Builder

end Lifecycle.Dispatcher
