import Lifecycle.Registry
import Mathlib.Data.List.Induction
import Mathlib.Data.List.Nodup
import Mathlib.Data.List.Perm.Basic
import Mathlib.Tactic.Common

/-! What a row of registrations comes to. Every builder that callers can have is `ofList` of the
registrations made so far, in whatever words (`Made.eq_ofList`), so all of this is by induction at
the end of that list. Main statement: the row makes a registry just if no command occurs twice in
it, and else the command is reported with which it first repeats itself; the registry has the
handlers of the row and forgets its order. -/

namespace Lifecycle.Registry

variable {registrations row : List (Command × Handler)} {c d : Command} {h : Handler} {r : Registry}

@[ext]
theorem ext {r r' : Registry} (same : ∀ c, r.handler? c = r'.handler? c) : r = r' :=
  congrArg Registry.mk (funext same)

namespace Builder

def named (registrations : List (Command × Handler)) : List Command := registrations.map (·.1)

/-- The earliest registration that repeats an earlier one is for this command, whatever follows. -/
def FirstRepeats (registrations : List (Command × Handler)) (c : Command) : Prop :=
  ∃ before h after, registrations = before ++ (c, h) :: after ∧ (named before).Nodup ∧
    c ∈ named before

theorem named_snoc : named (registrations ++ [(c, h)]) = named registrations ++ [c] :=
  List.map_append

theorem nodup_named_snoc :
    (named (registrations ++ [(c, h)])).Nodup ↔
      (named registrations).Nodup ∧ c ∉ named registrations := by
  rw [named_snoc, List.nodup_append_comm, List.singleton_append, List.nodup_cons, and_comm]

theorem firstRepeats_snoc : FirstRepeats (registrations ++ [(c, h)]) d ↔
    FirstRepeats registrations d ∨
      (named registrations).Nodup ∧ c ∈ named registrations ∧ d = c := by
  constructor
  · rintro ⟨before, g, after, split, nodup, again⟩
    induction after using List.reverseRecOn with
    | nil =>
      obtain ⟨rfl, last⟩ := List.append_inj' split rfl
      cases last
      exact .inr ⟨nodup, again, rfl⟩
    | append_singleton after last =>
      rw [← List.cons_append, ← List.append_assoc] at split
      obtain ⟨rfl, -⟩ := List.append_inj' split rfl
      exact .inl ⟨before, g, after, rfl, nodup, again⟩
  · rintro (⟨before, g, after, rfl, nodup, again⟩ | ⟨nodup, again, rfl⟩)
    · exact ⟨before, g, after ++ [(c, h)], by simp, nodup, again⟩
    · exact ⟨registrations, h, [], rfl, nodup, again⟩

theorem ofList_snoc : ofList (registrations ++ [(c, h)]) = (ofList registrations).register c h :=
  List.foldl_append

/-- The builders that callers can have, in whatever words they register. -/
inductive Made : Builder → Prop
  | new : Made {}
  | register {b} (made : Made b) (c : Command) (h : Handler) : Made (b.register c h)
  | registerArc {b} (made : Made b) (c : Command) (h : Handler) : Made (b.registerArc c h)
  | on {b} (made : Made b) (c : Command) (h : Handler) : Made (b.on c h)
  | onStart {b} (made : Made b) (h : Handler) : Made (b.onStart h)
  | onStop {b} (made : Made b) (h : Handler) : Made (b.onStop h)
  | onPause {b} (made : Made b) (h : Handler) : Made (b.onPause h)
  | onResume {b} (made : Made b) (h : Handler) : Made (b.onResume h)
  | onReload {b} (made : Made b) (h : Handler) : Made (b.onReload h)
  | onHealthCheck {b} (made : Made b) (h : Handler) : Made (b.onHealthCheck h)
  | onRecover {b} (made : Made b) (h : Handler) : Made (b.onRecover h)

theorem Made.eq_ofList {b : Builder} (made : Made b) :
    ∃ registrations, b = ofList registrations := by
  have more {b : Builder} (before : ∃ registrations, b = ofList registrations) (c : Command)
      (h : Handler) : ∃ registrations, b.register c h = ofList registrations := by
    obtain ⟨registrations, rfl⟩ := before
    exact ⟨registrations ++ [(c, h)], ofList_snoc.symm⟩
  induction made with
  | new => exact ⟨[], rfl⟩
  | register _ c h ih | registerArc _ c h ih | on _ c h ih => exact more ih c h
  | onStart _ h ih => exact more ih .start h
  | onStop _ h ih => exact more ih .stop h
  | onPause _ h ih => exact more ih .pause h
  | onResume _ h ih => exact more ih .resume h
  | onReload _ h ih => exact more ih .reload h
  | onHealthCheck _ h ih => exact more ih .healthCheck h
  | onRecover _ h ih => exact more ih .recover h

theorem handler?_ofList (registrations : List (Command × Handler)) (c : Command) :
    (ofList registrations).registry.handler? c =
      (registrations.find? (·.1 == c)).map (·.2) := by
  induction registrations using List.reverseRecOn with
  | nil => rfl
  | append_singleton registrations new ih =>
    obtain ⟨d, h⟩ := new
    rw [ofList_snoc, register, List.find?_append]
    by_cases same : d = c
    · subst same
      by_cases taken : (ofList registrations).registry.contains d
      · rw [if_pos taken, ih]
        rw [contains, ih, Option.isSome_map] at taken
        rw [Option.or_of_isSome taken]
      · rw [Bool.not_eq_true, contains_eq_false_iff, ih, Option.map_eq_none_iff] at taken
        simp [contains, ih, taken]
    · have other : ([(d, h)] : List (Command × Handler)).find? (·.1 == c) = none := by simp [same]
      rw [other, Option.or_none, ← ih]
      split
      · rfl
      · exact if_neg (Ne.symm same)

theorem contains_ofList : (ofList registrations).registry.contains c ↔ c ∈ named registrations := by
  rw [contains, handler?_ofList, Option.isSome_map, List.find?_isSome]
  simp [named]

theorem repeated_snoc : (ofList (registrations ++ [(c, h)])).repeated =
    ((ofList registrations).repeated <|> if c ∈ named registrations then some c else none) := by
  rw [ofList_snoc, register]
  by_cases again : c ∈ named registrations
  · rw [if_pos (contains_ofList.2 again), if_pos again]
  · rw [if_neg (mt contains_ofList.1 again), if_neg again]
    cases (ofList registrations).repeated <;> rfl

theorem repeated_eq_none_iff :
    (ofList registrations).repeated = none ↔ (named registrations).Nodup := by
  induction registrations using List.reverseRecOn with
  | nil => exact ⟨fun _ => List.nodup_nil, fun _ => rfl⟩
  | append_singleton registrations new ih =>
    rw [repeated_snoc, nodup_named_snoc, ← ih, Option.orElse_eq_orElse, Option.orElse_eq_or,
      Option.or_eq_none_iff]
    simp

theorem repeated_eq_some_iff :
    (ofList registrations).repeated = some c ↔ FirstRepeats registrations c := by
  induction registrations using List.reverseRecOn with
  | nil =>
    constructor
    · exact nofun
    · rintro ⟨before, h, after, split, -⟩
      simp at split
  | append_singleton registrations new ih =>
    obtain ⟨d, h⟩ := new
    rw [repeated_snoc, firstRepeats_snoc, ← ih, ← repeated_eq_none_iff]
    cases (ofList registrations).repeated with
    | none =>
      by_cases again : d ∈ named registrations
      · simp [again, eq_comm]
      · simp [again]
    | some e => simp

theorem build_eq_error_iff {b : Builder} : b.build = .error ⟨c⟩ ↔ b.repeated = some c := by
  unfold build
  split <;> simp_all

theorem build_eq_ok_iff {b : Builder} : b.build = .ok r ↔ b.repeated = none ∧ b.registry = r := by
  unfold build
  split <;> simp_all

theorem build_ofList (nodup : (named registrations).Nodup) :
    (ofList registrations).build = .ok (ofList registrations).registry :=
  build_eq_ok_iff.2 ⟨repeated_eq_none_iff.2 nodup, rfl⟩

theorem mem_of_handler? (handled : (ofList registrations).registry.handler? c = some h) :
    (c, h) ∈ registrations := by
  rw [handler?_ofList, Option.map_eq_some_iff] at handled
  obtain ⟨⟨d, g⟩, found, rfl⟩ := handled
  have same : d = c := by simpa using List.find?_some found
  exact same ▸ List.mem_of_find?_eq_some found

theorem handler?_eq_some_iff (nodup : (named registrations).Nodup) :
    (ofList registrations).registry.handler? c = some h ↔ (c, h) ∈ registrations := by
  refine ⟨mem_of_handler?, fun mem => ?_⟩
  have registered : c ∈ named registrations := List.mem_map_of_mem mem
  obtain ⟨g, handled⟩ := Option.isSome_iff_exists.1 (contains_ofList.2 registered)
  have same := List.inj_on_of_nodup_map nodup mem (mem_of_handler? handled) rfl
  rw [handled, (Prod.mk.inj same).2]

structure MadeOf (registrations : List (Command × Handler)) (r : Registry) : Prop where
  handled {c : Command} {h : Handler} : r.handler? c = some h ↔ (c, h) ∈ registrations
  unhandled {c : Command} : r.handler? c = none ↔ c ∉ named registrations
  contains {c : Command} : r.contains c ↔ ∃ h, r.handler? c = some h
  commands {c : Command} : c ∈ r.commands ↔ c ∈ named registrations
  listed : r.commands.Sublist Command.all ∧ r.commands.Nodup
  size : r.size = r.commands.length ∧ r.size = registrations.length

theorem madeOf_ofList (nodup : (named registrations).Nodup) :
    MadeOf registrations (ofList registrations).registry where
  handled := handler?_eq_some_iff nodup
  unhandled {c} := by rw [← contains_ofList, Bool.not_eq_true, contains_eq_false_iff]
  contains := contains_iff
  commands := mem_commands.trans contains_ofList
  listed := ⟨commands_sublist _, commands_nodup _⟩
  size := ⟨rfl, (size_eq nodup fun _ => contains_ofList.symm).trans (List.length_map _)⟩

/-- Two commands registered twice each, of which the second one is the first to be repeated. -/
def twoRepeated : List (Command × Handler) :=
  [.stop, .start, .pause, .start, .stop].map (·, Handler.accept)

end Builder

end Lifecycle.Registry
