import Lifecycle.Proofs.Envelopes
import Mathlib.Algebra.Group.Nat.Defs
import Mathlib.Data.List.Induction

/-! What the readers of fields make of a value, told from its outline: a truth value, a natural, a
name, a document. Main statement: of a record with two fields, in object form each field gets the
one value that is given for it, or keeps its own if it is not required. -/

namespace Lifecycle

open Scan Numeral Outline

variable {α β γ : Type}

namespace Numeral

theorem octet_digitChar {b : UInt8} (digit : isDigit b) :
    octet (b.toNat - 48).digitChar = b := by
  simp only [isDigit, Bool.and_eq_true, decide_eq_true_eq, UInt8.le_iff_toNat_le] at digit
  have least : 48 ≤ b.toNat := digit.1
  have most : b.toNat ≤ 57 := digit.2
  refine UInt8.toNat_inj.1 ?_
  rw [octet, Nat.toNat_digitChar_of_lt_ten (by omega), Text.Utf8.toNat_toUInt8 (by omega)]
  omega

theorem ofDigits_snoc (ds : List Nat) (d : Nat) : ofDigits (ds ++ [d]) = ofDigits ds * 10 + d := by
  simp [ofDigits]

theorem ofDigits_pos {ds : List Nat} (some : ds ≠ []) (first : ds.head? ≠ .some 0) :
    0 < ofDigits ds := by
  induction ds using List.reverseRecOn with
  | nil => exact absurd rfl some
  | append_singleton ds d ih =>
    rw [ofDigits_snoc]
    cases ds with
    | nil =>
      have nonzero : d ≠ 0 := by simpa using first
      omega
    | cons a ds =>
      have positive := ih (by simp) (by simpa using first)
      omega

theorem digitChars_ofDigits {ds : List Nat} (some : ds ≠ []) (small : ∀ d ∈ ds, d < 10)
    (plain : ¬ (ds.head? = .some 0 ∧ 1 < ds.length)) :
    digitChars (ofDigits ds) = ds.map Nat.digitChar := by
  induction ds using List.reverseRecOn with
  | nil => exact absurd rfl some
  | append_singleton ds d ih =>
    have last : d < 10 := small d (by simp)
    rw [ofDigits_snoc, List.map_append]
    cases ds with
    | nil => simpa [ofDigits, digitChars] using Nat.toDigits_of_lt_base last
    | cons a ds =>
      have first : (a :: ds).head? ≠ .some 0 := fun zero => plain ⟨by simpa using zero, by simp⟩
      have positive := ofDigits_pos (by simp) first
      have more := ih (by simp) (fun d mem => small d (List.mem_append_left _ mem))
        fun zero => first zero.1
      have whole := Nat.toDigits_append_toDigits (b := 10) (by decide) positive last
      rw [Nat.mul_comm, digitChars, ← whole, ← more, Nat.toDigits_of_lt_base last]
      rfl

theorem digitsOf_map (s : Bytes) :
    (∀ d ∈ digitsOf s, d < 10) ∧
      ((digitsOf s).map Nat.digitChar).map octet = s.takeWhile isDigit := by
  have digits : ∀ b ∈ s.takeWhile isDigit, isDigit b = true :=
    List.all_eq_true.1 List.all_takeWhile
  constructor
  · rw [digitsOf, List.forall_mem_map]
    intro b mem
    have range := digits b mem
    simp only [isDigit, Bool.and_eq_true, decide_eq_true_eq, UInt8.le_iff_toNat_le] at range
    have most : b.toNat ≤ 57 := range.2
    omega
  · rw [digitsOf, List.map_map, List.map_map]
    exact (List.map_congr_left fun b mem => octet_digitChar (digits b mem)).trans (List.map_id _)

theorem wholePart_eq_ok {absent : Fault} {s rest : Bytes} {ds : List Nat}
    (read : wholePart absent s = .ok (ds, rest)) :
    s = (digitChars (ofDigits ds)).map octet ++ rest := by
  obtain ⟨⟨ds', s'⟩, taken, checked⟩ := Except.of_bind read
  dsimp only at checked
  by_cases zero : ds'.head? = some 0 ∧ 1 < ds'.length
  · rw [if_pos zero] at checked
    cases checked
  rw [if_neg zero] at checked
  cases checked
  cases s with
  | nil => cases taken
  | cons b s =>
    rw [digits] at taken
    by_cases digit : isDigit b = true
    · rw [if_pos digit] at taken
      cases taken
      obtain ⟨small, same⟩ := digitsOf_map (b :: s)
      have some : digitsOf (b :: s) ≠ [] := by simp [digitsOf, digit]
      rw [digitChars_ofDigits some small zero, same, List.takeWhile_append_dropWhile]
    · rw [if_neg digit] at taken
      cases taken

theorem float_ne_integer {x : Numeral} {m : Int} : x.float ≠ .ok (.integer m) := by
  unfold float
  dsimp only
  split <;> simp

theorem value_eq_integer {x : Numeral} {m : Int} (value : x.value = .ok (.integer m)) :
    x.fraction = none ∧ x.exponent = none ∧
      if x.negative then m < 0 else m = ofDigits x.whole ∧ ofDigits x.whole < wordLimit := by
  unfold Numeral.value at value
  dsimp only at value
  by_cases pointed : x.fraction.isSome ∨ x.exponent.isSome
  · rw [if_pos pointed] at value
    exact absurd value float_ne_integer
  rw [if_neg pointed] at value
  refine ⟨by simpa using (not_or.1 pointed).1, by simpa using (not_or.1 pointed).2, ?_⟩
  by_cases negative : x.negative = true
  · rw [if_pos negative] at value ⊢
    split at value
    · exact absurd value float_ne_integer
    · next other =>
      cases value
      omega
  · rw [if_neg negative] at value ⊢
    split at value
    · next word =>
      cases value
      exact ⟨rfl, word⟩
    · exact absurd value float_ne_integer

theorem rest_of_fractionPart {absent : Fault} {s rest : Bytes}
    (read : fractionPart absent s = .ok (none, rest)) : s = rest := by
  cases s with
  | nil => cases read; rfl
  | cons b s =>
    rw [fractionPart] at read
    split at read
    · obtain ⟨_, -, last⟩ := Except.of_bind read
      cases last
    · cases read
      rfl

theorem rest_of_exponentPart {absent : Fault} {s rest : Bytes}
    (read : exponentPart absent s = .ok (none, rest)) : s = rest := by
  cases s with
  | nil => cases read; rfl
  | cons b s =>
    rw [exponentPart] at read
    split at read
    · obtain ⟨_, -, last⟩ := Except.of_bind read
      cases last
    · cases read
      rfl

theorem read_eq_natural {negative : Bool} {s rest : Bytes} {n : Nat}
    (done : read negative s = .ok (.integer n, rest)) :
    negative = false ∧ n < wordLimit ∧ s = (digitChars n).map octet ++ rest := by
  obtain ⟨⟨x, s'⟩, scanned, further⟩ := Except.of_bind done
  obtain ⟨m, value, last⟩ := Except.of_bind further
  cases last
  obtain ⟨⟨whole, s₁⟩, first, further⟩ := Except.of_bind scanned
  obtain ⟨⟨fraction, s₂⟩, second, further⟩ := Except.of_bind further
  obtain ⟨⟨exponent, s₃⟩, third, last⟩ := Except.of_bind further
  cases last
  obtain ⟨rfl, rfl, range⟩ := value_eq_integer value
  cases negative with
  | true => exact absurd range (by simp)
  | false =>
    obtain ⟨same, word⟩ := range
    obtain rfl : n = ofDigits whole := Int.ofNat.inj same
    obtain rfl := rest_of_fractionPart second
    obtain rfl := rest_of_exponentPart third
    exact ⟨rfl, word, wholePart_eq_ok first⟩

end Numeral

namespace Outline

def natural (n : Nat) : Outline := .scalar ((digitChars n).map octet)

def nothing : Outline := .scalar (octet 'n' :: restOfNull)

def truth : Bool → Outline
  | true => .scalar (octet 't' :: restOfTrue)
  | false => .scalar (octet 'f' :: restOfFalse)

def Names (room : Nat) (t : String) (x : Outline) : Prop :=
  x.value? room = some (.string t) ∨ 0 < room ∧ ∃ k, text? k = some t ∧ x = .object [(k, nothing)]

end Outline

theorem Json.depth_of_readScalar {s rest : Bytes} {v : Json} (read : readScalar s = .ok (v, rest)) :
    v.depth = 0 := by
  cases s with
  | nil => cases read
  | cons b s =>
    rcases scalar_cases b with rfl | rfl | rfl | rfl | digit | rfl | other
    · obtain ⟨_, -, last⟩ := Except.of_bind (x := word restOfNull s) read
      cases last
      rfl
    · obtain ⟨_, -, last⟩ := Except.of_bind (x := word restOfTrue s) read
      cases last
      rfl
    · obtain ⟨_, -, last⟩ := Except.of_bind (x := word restOfFalse s) read
      cases last
      rfl
    · obtain ⟨_, -, last⟩ := Except.of_bind (x := Numeral.read true s) read
      cases last
      rfl
    · rw [readScalar_digit digit] at read
      obtain ⟨_, -, last⟩ := Except.of_bind read
      cases last
      rfl
    · obtain ⟨_, -, last⟩ := Except.of_bind (x := Scan.string s) read
      cases last
      rfl
    · rw [other.2] at read
      cases read

namespace Reader

theorem boolean_means (room : Nat) : Steady boolean room ∧
    ∀ {x b}, x.Whole → (Means boolean room x b ↔ x = truth b) := by
  refine Steady.of (fun {s b rest} whole => ?_) (fun {x s b rest} spells stops means => ?_)
  · unfold boolean at whole
    cases begins : skipSpace s with
    | nil =>
      rw [begins] at whole
      cases whole
    | cons c r =>
      simp only [begins] at whole
      by_cases affirmed : c = octet 't'
      · rw [if_pos affirmed] at whole
        obtain ⟨q, taken, last⟩ := Except.of_bind whole
        cases last
        obtain rfl := word_eq_ok_iff.1 taken
        exact ⟨truth true, ⟨rfl, by rw [begins, affirmed]; rfl⟩, rfl⟩
      rw [if_neg affirmed] at whole
      by_cases denied : c = octet 'f'
      · rw [if_pos denied] at whole
        obtain ⟨q, taken, last⟩ := Except.of_bind whole
        cases last
        obtain rfl := word_eq_ok_iff.1 taken
        exact ⟨truth false, ⟨rfl, by rw [begins, denied]; rfl⟩, rfl⟩
      · rw [if_neg denied] at whole
        exact absurd whole (wrongType_ne_ok _ _ _)
  · subst means
    cases b with
    | true =>
      obtain ⟨-, begins⟩ := spells
      rw [List.cons_append] at begins
      have taken : word restOfTrue (restOfTrue ++ rest) = .ok rest := word_eq_ok_iff.2 rfl
      rw [boolean, begins]
      exact (if_pos rfl).trans (by rw [taken]; rfl)
    | false =>
      obtain ⟨-, begins⟩ := spells
      rw [List.cons_append] at begins
      have taken : word restOfFalse (restOfFalse ++ rest) = .ok rest := word_eq_ok_iff.2 rfl
      rw [boolean, begins]
      exact (if_neg (by decide)).trans ((if_pos rfl).trans (by rw [taken]; rfl))

theorem skip_natural (n : Nat) {s : Bytes} (stops : Stops s) :
    Skip.scalar ((digitChars n).map octet ++ s) = .ok s := by
  obtain ⟨b, r, same, digit⟩ := Json.digits_begin n
  have scanned := scan_written .malformed false n stops
  rw [same, List.cons_append] at scanned ⊢
  rw [Json.scalar_digit digit, skip, scanned]
  rfl

theorem spells_natural {n : Nat} {s rest : Bytes} :
    (natural n).Spells s rest ↔ skipSpace s = (digitChars n).map octet ++ rest := by
  have passed := skip_natural n stops_nil
  rw [List.append_nil] at passed
  exact ⟨And.right, fun begins => ⟨passed, begins⟩⟩

theorem size_means (room : Nat) : Steady size room ∧
    ∀ {x n}, x.Whole → (Means size room x n ↔ x = natural n ∧ n < wordLimit) := by
  refine Steady.of (fun {s n rest} whole => ?_) (fun {x s n rest} spells stops means => ?_)
  · unfold size at whole
    cases begins : skipSpace s with
    | nil =>
      rw [begins] at whole
      cases whole
    | cons b r =>
      simp only [begins] at whole
      by_cases minus : b = octet '-'
      · rw [if_pos minus] at whole
        obtain ⟨⟨m, q⟩, taken, last⟩ := Except.of_bind whole
        rcases m with (k | k) | x
        · obtain ⟨other, -⟩ := read_eq_natural taken
          cases other
        · cases last
        · cases last
      rw [if_neg minus] at whole
      by_cases digit : isDigit b = true
      · rw [if_pos digit] at whole
        obtain ⟨⟨m, q⟩, taken, last⟩ := Except.of_bind whole
        rcases m with (k | k) | x
        · obtain ⟨-, word, same⟩ := read_eq_natural taken
          cases last
          exact ⟨natural n, spells_natural.2 (begins.trans same), rfl, word⟩
        · cases last
        · cases last
      · rw [if_neg digit] at whole
        exact absurd whole (wrongType_ne_ok _ _ _)
  · obtain ⟨rfl, word⟩ := means
    have begins := spells_natural.1 spells
    have read := read_natural word stops
    obtain ⟨b, r, same, digit⟩ := Json.digits_begin n
    rw [same, List.cons_append] at begins read
    rw [size, begins]
    dsimp only
    rw [if_neg (Json.isDigit_ne digit (by decide)), if_pos digit, read]
    rfl

theorem unit_means (room : Nat) : Steady unit room ∧
    ∀ {x b}, x.Whole → (Means unit room x b ↔ x = nothing) := by
  refine Steady.of (fun {s b rest} whole => ?_) (fun {x s b rest} spells stops means => ?_)
  · unfold unit at whole
    cases begins : skipSpace s with
    | nil =>
      rw [begins] at whole
      cases whole
    | cons c r =>
      simp only [begins] at whole
      by_cases null : c = octet 'n'
      · rw [if_pos null] at whole
        obtain ⟨q, taken, last⟩ := Except.of_bind whole
        cases last
        obtain rfl := word_eq_ok_iff.1 taken
        exact ⟨nothing, ⟨rfl, by rw [begins, null]; rfl⟩, rfl⟩
      · rw [if_neg null] at whole
        exact absurd whole (wrongType_ne_ok _ _ _)
  · subst means
    obtain ⟨-, begins⟩ := spells
    rw [List.cons_append] at begins
    have taken : word restOfNull (restOfNull ++ rest) = .ok rest := word_eq_ok_iff.2 rfl
    rw [unit, begins]
    exact (if_pos rfl).trans (by rw [taken]; rfl)

theorem members_of_spells {x : Outline} {s rest : Bytes} (spells : x.Spells s rest) {room : Nat}
    {m : Members Json} (means : x.value? room = some (.object m)) :
    members room s = .ok (m, rest) := by
  match x, room, spells with
  | .scalar octets, room, _ =>
    exact absurd (Json.depth_of_readScalar (value?_scalar.1 means)) (Nat.succ_ne_zero _)
  | .array xs, room + 1, _ =>
    obtain ⟨vs, -, same⟩ := Option.map_eq_some_iff.1 means
    cases same
  | .object ms, room + 1, ⟨r, begins, spelled⟩ =>
    obtain ⟨m, values, ⟨⟩⟩ := Option.map_eq_some_iff.1 means
    have inside := Json.readMembers_of_spells spelled values (Json.fuelFor r)
      (by simp [Json.fuelFor])
    have closed : closeObject (octet '\x7d' :: rest) = .ok rest := rfl
    unfold members
    simp only [begins]
    refine (if_pos trivial).trans ?_
    simp only [bind, Except.bind, inside, closed]
    rfl

theorem members_means (room : Nat) : Steady members room ∧
    ∀ {x m}, x.Whole → (Means members room x m ↔ x.value? room = some (.object m)) := by
  refine Steady.of (fun {s m rest} whole => ?_) fun spells _ means => members_of_spells spells means
  unfold members at whole
  cases begins : skipSpace s with
  | nil =>
    rw [begins] at whole
    cases whole
  | cons b r =>
    simp only [begins] at whole
    by_cases brace : b = octet '\x7b'
    · rw [if_pos brace] at whole
      cases room with
      | zero => cases whole
      | succ room =>
        obtain ⟨⟨m', s'⟩, inside, further⟩ := Except.of_bind whole
        obtain ⟨q, closed, last⟩ := Except.of_bind further
        cases last
        obtain ⟨ms, t, spells, rfl, means⟩ := (Json.spells_of_read _).2.2 _ _ _ _ _ _ inside
        obtain ⟨-, rfl⟩ := List.cons.inj (mark_eq_ok_iff.1 closed)
        refine ⟨.object ms, ⟨r, by rw [begins, brace], spells⟩, ?_⟩
        rw [value?, means]
        rfl
    · rw [if_neg brace] at whole
      exact absurd whole (wrongType_ne_ok _ _ _)

theorem named_eq_ok_iff {all : List α} {name : α → String} {t : String} {a : α} :
    (match all.find? (name · == t) with
      | some v => .ok v
      | none => .error (.unfit (.unknownVariant t (all.map name))) : Except Fault α) = .ok a ↔
      all.find? (name · == t) = some a := by
  cases all.find? (name · == t) <;> simp

theorem choice_means (all : List α) (name : α → String) (room : Nat) :
    Steady (choice all name) room ∧ ∀ {x a}, x.Whole → (Means (choice all name) room x a ↔
      ∃ t, all.find? (name · == t) = some a ∧ x.Names room t) := by
  refine Steady.of (fun {s a rest} whole => ?_) (fun {x s a rest} spells stops means => ?_)
  · unfold choice at whole
    cases begins : skipSpace s with
    | nil =>
      rw [begins] at whole
      cases whole
    | cons b r =>
      simp only [begins] at whole
      by_cases quote : b = octet '"'
      · rw [if_pos quote] at whole
        obtain ⟨⟨t, q⟩, taken, further⟩ := Except.of_bind whole
        obtain ⟨v, known, last⟩ := Except.of_bind further
        cases last
        obtain ⟨x, spells, text⟩ := spells_quoted (begins.trans (by rw [quote])) taken
        exact ⟨x, spells, t, named_eq_ok_iff.1 known, .inl (text room)⟩
      rw [if_neg quote] at whole
      by_cases brace : b = octet '\x7b'
      · rw [if_pos brace] at whole
        cases room with
        | zero => cases whole
        | succ room =>
          obtain ⟨⟨t, u⟩, key, further⟩ := Except.of_bind whole
          obtain ⟨v, known, further⟩ := Except.of_bind further
          obtain ⟨w, colon, further⟩ := Except.of_bind further
          obtain ⟨⟨b, q⟩, null, further⟩ := Except.of_bind further
          obtain ⟨p, closed, last⟩ := Except.of_bind further
          cases last
          obtain ⟨k, spelled, text⟩ := spellsKey_of_read key colon
          obtain ⟨x, value, means⟩ := (unit_means room).1.spelled null
          obtain rfl := ((unit_means room).2 ⟨_, _, value⟩).1 means
          exact ⟨.object [(k, nothing)], ⟨r, by rw [begins, brace], r, w, q, rfl, spelled, value,
            mark_eq_ok_iff.1 closed⟩, t, named_eq_ok_iff.1 known,
            .inr ⟨Nat.succ_pos _, k, text, rfl⟩⟩
      · rw [if_neg brace] at whole
        cases whole
  · obtain ⟨t, known, text | ⟨some, k, text, rfl⟩⟩ := means
    · obtain ⟨r, begins, taken⟩ := quoted_of_spells spells text
      unfold choice
      simp only [begins]
      refine (if_pos trivial).trans ?_
      simp only [bind, Except.bind, taken, known]
      rfl
    · obtain ⟨room, rfl⟩ : ∃ n, room = n + 1 := ⟨room - 1, by omega⟩
      obtain ⟨r, begins, _, u, q, rfl, spelled, value, closed⟩ := spells
      obtain ⟨w, taken, colon⟩ := read_of_spellsKey spelled text
      have stops := stops_members (show SpellsMembers false [] q rest from closed)
      have means : Means unit room nothing () := ((unit_means room).2 ⟨_, _, value⟩).2 rfl
      have null := (unit_means room).1.taken value stops means
      have closed : closeObject q = .ok rest := mark_eq_ok_iff.2 closed
      unfold choice
      simp only [begins]
      refine (if_neg (by decide)).trans ((if_pos trivial).trans ?_)
      simp only [bind, Except.bind, taken, known, colon, null, closed]
      rfl

end Reader

namespace Record

section

variable {r : Record α} {name name' : String} {reader : Reader β} {reader' : Reader γ}
  {set : β → α → α} {set' : γ → α → α} {presence presence' : Presence}
  (fields : r.fields = [field name reader set presence, field name' reader' set' presence'])

include fields

theorem missing?_pair {seen : List String} : r.missing? seen = none ↔
    (presence = .required → name ∈ seen) ∧ (presence' = .required → name' ∈ seen) := by
  simp [missing?, fields, field]

theorem find?_first : r.fields.find? (·.name == name) = some (field name reader set presence) := by
  rw [fields]
  exact List.find?_cons_of_pos (by simp [field])

theorem find?_second (apart : name ≠ name') :
    r.fields.find? (·.name == name') = some (field name' reader' set' presence') := by
  rw [fields]
  exact (List.find?_cons_of_neg (by simpa [field] using apart)).trans
    (List.find?_cons_of_pos (by simp [field]))

theorem steady_pair {room : Nat} (steady : reader.Steady room) (steady' : reader'.Steady room) :
    ∀ f ∈ r.fields, Reader.Steady f.read room := by
  rw [fields]
  simp only [List.forall_mem_cons]
  exact ⟨steady_field steady, steady_field steady', nofun⟩

variable (apart : name ≠ name') {make : β → γ → α}
  (puts : ∀ b c d, set d (make b c) = make d c) (puts' : ∀ b c d, set' d (make b c) = make b d)

include apart puts puts'

theorem takes_pair {room : Nat} {seen : List String} {b : β} {c : γ}
    {ms : List (Bytes × Outline)} {made : α} : r.Takes room seen (make b c) ms made ↔
      (∀ m ∈ ms, ∃ key, text? m.1 = some key ∧ (r.closed → key ∈ [name, name'])) ∧
      ∃ b' c', made = make b' c' ∧
        Slot (reader.Means room) (presence = .required) (name ∈ seen) (values name ms) b b' ∧
        Slot (reader'.Means room) (presence' = .required) (name' ∈ seen) (values name' ms) c
          c' := by
  induction ms generalizing seen b c with
  | nil =>
    rw [takes_nil, missing?_pair fields]
    constructor
    · rintro ⟨⟨first, second⟩, rfl⟩
      exact ⟨nofun, b, c, rfl, slot_nil.2 ⟨rfl, first⟩, slot_nil.2 ⟨rfl, second⟩⟩
    · rintro ⟨-, b', c', rfl, first, second⟩
      obtain ⟨rfl, seen⟩ := slot_nil.1 first
      obtain ⟨rfl, seen'⟩ := slot_nil.1 second
      exact ⟨⟨seen, seen'⟩, rfl⟩
  | cons m ms ih =>
    obtain ⟨k, x⟩ := m
    cases text : text? k with
    | none =>
      refine ⟨fun takes => ?_, fun told => ?_⟩
      · obtain ⟨key, text'⟩ := text_of_takes takes
        cases text.symm.trans text'
      · obtain ⟨key, text', -⟩ := told.1 (k, x) List.mem_cons_self
        cases text.symm.trans text'
    | some key =>
      have keyed : (∃ key, text? k = some key ∧ (r.closed → key ∈ [name, name'])) ↔
          (r.closed → key ∈ [name, name']) := by simp [text]
      rw [List.forall_mem_cons]
      dsimp only
      rw [keyed, values_cons text, values_cons text]
      by_cases first : key = name
      · subst first
        rw [takes_field text (find?_first fields), if_pos rfl, if_neg apart]
        simp only [puts, ih, slot_cons, List.mem_cons, true_or, apart.symm, false_or,
          implies_true, true_and]
        constructor
        · rintro ⟨fresh, d, means, keyed, b', c', same, first, second⟩
          exact ⟨keyed, b', c', same, ⟨fresh, d, means, first⟩, second⟩
        · rintro ⟨keyed, b', c', same, ⟨fresh, d, means, first⟩, second⟩
          exact ⟨fresh, d, means, keyed, b', c', same, first, second⟩
      by_cases second : key = name'
      · subst second
        rw [takes_field text (find?_second fields apart), if_neg first, if_pos rfl]
        simp only [puts', ih, slot_cons, List.mem_cons, true_or, apart, false_or, or_true,
          implies_true, true_and]
        constructor
        · rintro ⟨fresh, d, means, keyed, b', c', same, first, second⟩
          exact ⟨keyed, b', c', same, first, fresh, d, means, second⟩
        · rintro ⟨keyed, b', c', same, first, fresh, d, means, second⟩
          exact ⟨fresh, d, means, keyed, b', c', same, first, second⟩
      · have stranger : key ∉ r.names := by simp [names, fields, field, first, second]
        have unknown := find?_eq_none stranger
        rw [if_neg first, if_neg second]
        cases closed : r.closed with
        | true =>
          refine ⟨fun takes => ?_, fun told => ?_⟩
          · cases takes with
            | field text' known =>
              cases text.symm.trans text'
              cases unknown.symm.trans known
            | other _ _ unclosed => cases closed.symm.trans unclosed
          · exact absurd (told.1.1 rfl) (by simp [first, second])
        | false =>
          rw [takes_unknown text unknown closed, ih, closed]
          simp

omit fields apart in
theorem takesElements_pair {room : Nat} {b : β} {c : γ} {xs : List Outline} {made : α} :
    TakesElements room [field name reader set presence, field name' reader' set' presence']
      (make b c) xs made ↔ ∃ b' c', made = make b' c' ∧
        Slot (reader.Means room) (presence ≠ .defaulted) False (xs.take 1) b b' ∧
        Slot (reader'.Means room) (presence' ≠ .defaulted) False (xs.drop 1) c c' := by
  constructor
  · intro takes
    cases takes with
    | field told more =>
      obtain ⟨b', means, rfl⟩ := means_field.1 told
      cases more with
      | field told' last =>
        obtain ⟨c', means', rfl⟩ := means_field.1 told'
        cases last
        exact ⟨b', c', by rw [puts, puts'], .inr ⟨id, _, rfl, means⟩, .inr ⟨id, _, rfl, means'⟩⟩
      | absent defaulted last =>
        cases last
        exact ⟨b', c, puts .., .inr ⟨id, _, rfl, means⟩,
          .inl ⟨rfl, rfl, fun other => absurd defaulted other⟩⟩
    | absent defaulted more =>
      cases more with
      | absent defaulted' last =>
        cases last
        exact ⟨b, c, rfl, .inl ⟨rfl, rfl, fun other => absurd defaulted other⟩,
          .inl ⟨rfl, rfl, fun other => absurd defaulted' other⟩⟩
  · rintro ⟨b', c', rfl, first, second⟩
    have absent {p : Presence} (free : p ≠ .defaulted → False) : p = .defaulted :=
      Decidable.not_not.1 free
    cases xs with
    | nil =>
      obtain ⟨-, rfl, free⟩ | ⟨-, _, ⟨⟩, -⟩ := first
      obtain ⟨-, rfl, free'⟩ | ⟨-, _, ⟨⟩, -⟩ := second
      exact .absent (absent free) (.absent (absent free') .done)
    | cons x xs =>
      obtain ⟨⟨⟩, -⟩ | ⟨-, _, ⟨⟩, means⟩ := first
      refine .given means ?_
      rw [puts]
      obtain ⟨none, rfl, free⟩ | ⟨-, y, one, means'⟩ := second
      · obtain rfl : xs = [] := none
        exact .absent (absent free) .done
      · obtain rfl : xs = [y] := one
        refine .given means' ?_
        rw [puts']
        exact .done

end

end Record

end Lifecycle
