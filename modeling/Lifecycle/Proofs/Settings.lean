import Lifecycle.Proofs.Fields
import Lifecycle.Proofs.Registrations
import Lifecycle.Proofs.Sessions
import Lifecycle.Proofs.Uncleared

/-! The settings of a dispatcher, from their document to its history. Main statement: which
documents are decoded to which settings, for every document; the settings with which a dispatcher
can be built, which are those that can be made directly; and how much its history then retains,
whatever happens. -/

namespace Lifecycle

open Scan Numeral Outline Record

variable {α β : Type}

namespace Config

def Chosen (written : β → Outline) (given : List Outline) (default v : β) : Prop :=
  given = [] ∧ v = default ∨ given = [written v]

/-- How settings are written: as an object that has no other keys, in any order, or as an array of
at most the two of them, in this order. -/
def Written : Outline → Config → Prop
  | .object ms, c =>
    (∀ m ∈ ms, ∃ key, text? m.1 = some key ∧ key ∈ ["restart_from_error", "history_capacity"]) ∧
      Chosen truth (values "restart_from_error" ms) false c.restartFromError ∧
      Chosen natural (values "history_capacity" ms) 256 c.historyCapacity ∧
      c.historyCapacity < 2 ^ 64
  | .array xs, c =>
    Chosen truth (xs.take 1) false c.restartFromError ∧
      Chosen natural (xs.drop 1) 256 c.historyCapacity ∧ c.historyCapacity < 2 ^ 64
  | .scalar _, _ => False

theorem record_fields : record.fields =
    [field "restart_from_error" Reader.boolean (fun v c => { c with restartFromError := v })
        .defaulted,
      field "history_capacity" Reader.size (fun v c => { c with historyCapacity := v })
        .defaulted] := rfl

theorem steady : ∀ f ∈ record.fields, Reader.Steady f.read 126 :=
  steady_pair record_fields (Reader.boolean_means 126).1 (Reader.size_means 126).1

section

variable {required : Prop} (free : ¬ required) {xs : List Outline} (whole : ∀ x ∈ xs, x.Whole)

include free whole

theorem chosen_boolean (old new : Bool) :
    Slot (Reader.Means Reader.boolean 126) required False xs old new ↔
      Chosen truth xs old new := by
  rw [eq_false free, slot_optional id, Chosen]
  refine or_congr_right ⟨?_, fun one => ⟨truth new, one, ?_⟩⟩
  · rintro ⟨x, rfl, means⟩
    rw [((Reader.boolean_means 126).2 (whole x (by simp))).1 means]
  · exact ((Reader.boolean_means 126).2 (whole _ (by simp [one]))).2 rfl

theorem chosen_size {old : Nat} (fits : old < 2 ^ 64) (new : Nat) :
    Slot (Reader.Means Reader.size 126) required False xs old new ↔
      Chosen natural xs old new ∧ new < 2 ^ 64 := by
  rw [eq_false free, slot_optional id, Chosen]
  constructor
  · rintro (⟨none, rfl⟩ | ⟨x, rfl, means⟩)
    · exact ⟨.inl ⟨none, rfl⟩, fits⟩
    · obtain ⟨rfl, word⟩ := ((Reader.size_means 126).2 (whole x (by simp))).1 means
      exact ⟨.inr rfl, word⟩
  · rintro ⟨⟨none, rfl⟩ | one, word⟩
    · exact .inl ⟨none, rfl⟩
    · exact .inr ⟨_, one, ((Reader.size_means 126).2 (whole _ (by simp [one]))).2 ⟨rfl, word⟩⟩

end

theorem makes_iff {x : Outline} {document : Bytes} (spelled : x.IsDocument document) (c : Config) :
    record.Makes 126 x c ↔ Written x c := by
  have puts (b : Bool) (n : Nat) (d : Bool) :
      { Config.mk b n with restartFromError := d } = Config.mk d n := rfl
  have puts' (b : Bool) (n m : Nat) :
      { Config.mk b n with historyCapacity := m } = Config.mk b m := rfl
  have small : 256 < 2 ^ 64 := by decide
  obtain ⟨rest, spells, -⟩ := spelled
  cases x with
  | scalar octets => exact Iff.rfl
  | array xs =>
    obtain ⟨r, -, elements⟩ := spells
    have whole := whole_of_elements elements
    have first : ∀ x ∈ xs.take 1, x.Whole := fun x mem => whole x (List.mem_of_mem_take mem)
    have second : ∀ x ∈ xs.drop 1, x.Whole := fun x mem => whole x (List.mem_of_mem_drop mem)
    change TakesElements 126 record.fields (Config.mk false 256) xs c ↔ _
    rw [record_fields]
    refine (takesElements_pair puts puts').trans ⟨?_, fun ⟨restart, size⟩ => ?_⟩
    · rintro ⟨b, n, rfl, restart, size⟩
      exact ⟨(chosen_boolean (by decide) first ..).1 restart,
        (chosen_size (by decide) second small _).1 size⟩
    · exact ⟨_, _, rfl, (chosen_boolean (by decide) first ..).2 restart,
        (chosen_size (by decide) second small _).2 size⟩
  | object ms =>
    obtain ⟨r, -, members⟩ := spells
    have whole := whole_of_members members
    have given (key : String) : ∀ x ∈ values key ms, x.Whole := fun x mem =>
      whole_of_mem_values (fun m mem => (whole m mem).2) mem
    have unseen (key : String) : (key ∈ ([] : List String)) = False :=
      eq_false List.not_mem_nil
    change record.Takes 126 [] (Config.mk false 256) ms c ↔ _
    refine (takes_pair record_fields (by decide) puts puts').trans ?_
    rw [unseen, unseen]
    constructor
    · rintro ⟨keyed, b, n, rfl, restart, size⟩
      exact ⟨fun m mem => (keyed m mem).imp fun _ => .imp_right (· rfl),
        (chosen_boolean (by decide) (given _) ..).1 restart,
        (chosen_size (by decide) (given _) small _).1 size⟩
    · rintro ⟨keyed, restart, size⟩
      exact ⟨fun m mem => (keyed m mem).imp fun _ => .imp_right fun known _ => known, _, _, rfl,
        (chosen_boolean (by decide) (given _) ..).2 restart,
        (chosen_size (by decide) (given _) small _).2 size⟩

theorem decode_eq_ok_iff {document : Bytes} {c : Config} :
    reader.decode document = .ok c ↔ ∃ x : Outline, x.IsDocument document ∧ Written x c :=
  (Record.decode_eq_ok_iff steady).trans
    (exists_congr fun _ => and_congr_right fun spelled => makes_iff spelled c)

end Config

namespace History

structure Bounded (n : Nat) (h : History) : Prop where
  capacity : h.capacity = n
  length : h.entries.length ≤ n

theorem Bounded.append {n : Nat} {h : History} (bounded : Bounded n h) (r : Result) :
    Bounded n (h.append r) where
  capacity := bounded.capacity
  length := by
    have fits : h.entries.length ≤ h.capacity := bounded.capacity ▸ bounded.length
    exact bounded.capacity ▸ length_append_le h r fits

theorem Bounded.foldl {n : Nat} {h : History} (bounded : Bounded n h) (rs : List Result) :
    Bounded n (rs.foldl .append h) := by
  induction rs generalizing h with
  | nil => exact bounded
  | cons r rs ih => exact ih (bounded.append r)

theorem Bounded.clear {n : Nat} {h : History} (bounded : Bounded n h) : Bounded n h.clear :=
  ⟨bounded.capacity, Nat.zero_le n⟩

end History

namespace Machine

variable {d : Dispatcher} {capacity n : Nat} {m m' : Machine}

theorem Stores.bounded (stores : Stores m m')
    (bounded : m.dispatcher.ledger.history.Bounded n) :
    m'.dispatcher.ledger.history.Bounded n := by
  obtain ⟨news, -, history, -⟩ := stores
  rw [history]
  exact bounded.foldl _

theorem Reachable.bounded (h : Reachable d capacity m) (start : d.ledger.history.Bounded n) :
    m.dispatcher.ledger.history.Bounded n := by
  induction h with
  | refl => exact start
  | tail _ change ih =>
    cases change with
    | turn => exact (Stores.of_adds .turn).bounded ih
    | move v timely => exact (Stores.of_adds (.move v timely)).bounded ih
    | clearHistory => exact ih.clear
    | clearEvents => exact ih
    | refusedFrame => exact (Stores.of_adds .refusedFrame).bounded ih

end Machine

namespace Dispatcher.Builder

variable {b : Builder} {d : Dispatcher}

theorem validate_of_build (built : b.build = .ok d) : b.config.historyCapacity ≠ 0 ∧
    d.ledger = b.ledger.getD { history := .withCapacity b.config.historyCapacity } := by
  obtain ⟨⟨⟩, valid, further⟩ := Except.of_bind built
  obtain ⟨registry, -, last⟩ := Except.of_bind further
  cases last
  refine ⟨Config.validate_eq_ok_iff.1 ?_, rfl⟩
  cases outcome : b.config.validate with
  | ok => rfl
  | error e =>
    rw [outcome] at valid
    cases valid

def Distinct (b : Builder) : Prop := ∀ h ∈ b.handlers, ∃ registrations : List (Command × Handler),
  h = .ofList registrations ∧ (registrations.map (·.1)).Nodup

theorem build_of_distinct (distinct : b.Distinct) (some : b.config.historyCapacity ≠ 0) :
    ∃ d, b.build = .ok d := by
  have registry : ∃ r, b.buildRegistry = .ok r := by
    unfold buildRegistry
    cases b.registry with
    | some ready => exact ⟨ready, rfl⟩
    | none =>
      cases handlers : b.handlers with
      | none => exact ⟨.empty, rfl⟩
      | some h =>
        obtain ⟨registrations, rfl, nodup⟩ := distinct h handlers
        exact ⟨_, congrArg (Except.mapError _) (Registry.Builder.build_ofList nodup)⟩
  obtain ⟨r, registry⟩ := registry
  rw [build, Config.validate_eq_ok_iff.2 some]
  simp only [bind, Except.bind, Except.mapError, registry]
  exact ⟨_, rfl⟩

end Dispatcher.Builder

namespace Config

theorem make_eq_ok_iff {restart : Bool} {n : Nat} {c : Config} :
    make restart n = .ok c ↔ n ≠ 0 ∧ c = ⟨restart, n⟩ := by
  by_cases none : n = 0
  · subst none
    exact ⟨nofun, fun made => absurd rfl made.1⟩
  · have valid : validate ⟨restart, n⟩ = .ok () := validate_eq_ok_iff.2 none
    have made : make restart n = .ok ⟨restart, n⟩ := by
      rw [make, valid]
      rfl
    rw [made, Except.ok.injEq]
    exact ⟨fun same => ⟨none, same.symm⟩, fun told => told.2.symm⟩

/-- What a document decides, from the settings in it to the history of the dispatcher that has
them. -/
structure SettingsDecide : Prop where
  decoded {document c} :
    reader.decode document = .ok c ↔ ∃ x : Outline, x.IsDocument document ∧ Written x c
  built {b : Dispatcher.Builder} : b.Distinct →
    ((∃ d, b.build = .ok d) ↔ b.config.historyCapacity ≠ 0)
  made {c : Config} : (∃ c', make c.restartFromError c.historyCapacity = .ok c') ↔
    c.historyCapacity ≠ 0
  equal {c c' : Config} : make c.restartFromError c.historyCapacity = .ok c' → c' = c
  refused {b : Dispatcher.Builder} : b.config.historyCapacity = 0 →
    ∃ e, b.build = .error (.invalidConfig e) ∧ make b.config.restartFromError 0 = .error e
  retained {b : Dispatcher.Builder} {d channel m} : b.ledger = none → b.build = .ok d →
    Machine.Reachable d channel m →
    m.dispatcher.ledger.history.entries.length ≤ b.config.historyCapacity
  latest {b : Dispatcher.Builder} {d channel m} : b.ledger = none → b.build = .ok d →
    Machine.Uncleared d channel m →
    m.dispatcher.ledger.history.entries = m.appended.rtake b.config.historyCapacity

theorem settings_decide : SettingsDecide where
  decoded := decode_eq_ok_iff
  built distinct := ⟨fun ⟨_, built⟩ => (Dispatcher.Builder.validate_of_build built).1,
    Dispatcher.Builder.build_of_distinct distinct⟩
  made := ⟨fun ⟨_, made⟩ => (make_eq_ok_iff.1 made).1,
    fun some => ⟨_, make_eq_ok_iff.2 ⟨some, rfl⟩⟩⟩
  equal made := (make_eq_ok_iff.1 made).2
  refused {b} none := by
    have invalid : b.config.validate = .error (.historyCapacity 0) := if_pos none
    exact ⟨.historyCapacity 0, by rw [Dispatcher.Builder.build, invalid]; rfl, rfl⟩
  retained {b d channel m} default built h := by
    obtain ⟨some, ledger⟩ := Dispatcher.Builder.validate_of_build built
    rw [default, Option.getD_none] at ledger
    have capacity : max b.config.historyCapacity 1 = b.config.historyCapacity := by omega
    have start : d.ledger.history.Bounded b.config.historyCapacity := by
      rw [ledger]
      exact ⟨capacity, Nat.zero_le _⟩
    exact (h.bounded start).length
  latest {b d channel m} default built h := by
    obtain ⟨some, ledger⟩ := Dispatcher.Builder.validate_of_build built
    rw [default, Option.getD_none] at ledger
    have capacity : max b.config.historyCapacity 1 = b.config.historyCapacity := by omega
    have holds := h.history_holds (n := b.config.historyCapacity) (by rw [ledger])
    rw [holds.latest, capacity]

def twoKept : List (Bytes × Outline) :=
  [(Envelope.ascii ['h', 'i', 's', 't', 'o', 'r', 'y', '_', 'c', 'a', 'p', 'a', 'c', '\\', 'u', '0',
    '0', '6', '9', 't', 'y'], natural 2)]

def twoHandled : List (Command × Handler) := [(.start, .accept), (.stop, .accept)]

theorem settings_decide_of_two_kept :
    reader.decode ((Outline.object twoKept).spaced [octet ' ']) = .ok ⟨false, 2⟩ ∧
    make false 2 = .ok ⟨false, 2⟩ ∧ ∃ d, Dispatcher.Builder.build
        { config := ⟨false, 2⟩, handlers := some (.ofList twoHandled) } = .ok d ∧
      ∀ moves, ((Machine.start d 1).run moves).dispatcher.ledger.history.entries.length ≤ 2 := by
  have whole : ∀ m ∈ twoKept, Inside m.1 ∧ m.2.Whole :=
    List.forall_mem_singleton.2 ⟨rfl, [octet '2'], [], Reader.spells_natural.2 rfl⟩
  have blank : ∀ b ∈ [octet ' '], isSpace b := List.forall_mem_singleton.2 rfl
  have written : Written (.object twoKept) ⟨false, 2⟩ :=
    ⟨List.forall_mem_singleton.2 ⟨"history_capacity", rfl, by decide⟩, .inl ⟨rfl, rfl⟩, .inr rfl,
      by decide⟩
  obtain ⟨c, made⟩ := (settings_decide.made (c := ⟨false, 2⟩)).2 (by decide)
  obtain rfl := settings_decide.equal made
  obtain ⟨d, built⟩ := (settings_decide.built
    (b := { config := ⟨false, 2⟩, handlers := some (.ofList twoHandled) })
    (by rintro _ ⟨⟩; exact ⟨twoHandled, rfl, by decide⟩)).2 (by decide)
  exact ⟨settings_decide.decoded.2 ⟨_, isDocument_object blank whole, written⟩, made, d, built,
    fun moves => settings_decide.retained rfl built (Machine.Uncleared.of_run d 1 moves).reachable⟩

end Config

end Lifecycle
