import Lifecycle.Proofs.Outlines

/-! Passing over a value. Main statement: octets can be passed over just when they spell an
outline, of any nesting, and what is left is what stands behind it. What the brackets still open
demand of the octets is written down as `Closes`. -/

namespace Lifecycle

namespace Scan

theorem mark_eq_ok_iff {b : UInt8} {s rest : Bytes} :
    mark b s = .ok rest ↔ skipSpace s = b :: rest := word_eq_ok_iff

end Scan

namespace Outline

open Scan

theorem spells_skipSpace {x : Outline} {s rest : Bytes} :
    x.Spells (skipSpace s) rest ↔ x.Spells s rest := by
  cases x <;> simp only [Spells, skipSpace_idem]

theorem spellsKey_skipSpace {k s rest : Bytes} :
    SpellsKey k (skipSpace s) rest ↔ SpellsKey k s rest := by
  rw [SpellsKey, skipSpace_idem, SpellsKey]

end Outline

namespace Skip

open Scan Numeral Outline

theorem key_eq_ok_iff {s rest : Bytes} : key s = .ok rest ↔ ∃ k, SpellsKey k s rest := by
  constructor
  · intro passed
    obtain ⟨r, quote, further⟩ := Except.of_bind passed
    obtain ⟨q, string, colon⟩ := Except.of_bind further
    obtain ⟨k, rfl, inside⟩ := skipString_eq_ok_iff.1 string
    exact ⟨k, inside, q, mark_eq_ok_iff.1 quote, mark_eq_ok_iff.1 colon⟩
  · rintro ⟨k, inside, r, begins, colon⟩
    have quote := mark_eq_ok_iff.2 begins
    have string : skipString (k ++ octet '"' :: r) = .ok r :=
      skipString_eq_ok_iff.2 ⟨k, rfl, inside⟩
    have colon : Scan.colon r = .ok rest := mark_eq_ok_iff.2 colon
    rw [key, quote]
    simp only [bind, Except.bind, string, colon]

def SpellsItems : Bracket → Bool → Bytes → Bytes → Prop
  | .square, first, s, rest => ∃ xs, SpellsElements first xs s rest
  | .curly, first, s, rest => ∃ ms, SpellsMembers first ms s rest

/-- What the open brackets demand of the octets behind a value, and what is left in the end. -/
def Closes : List Bracket → Bytes → Bytes → Prop
  | [], s, rest => s = rest
  | bracket :: around, s, rest => ∃ t, SpellsItems bracket false s t ∧ Closes around t rest

theorem items_closed {bracket : Bracket} (first : Bool) {s rest : Bytes}
    (closed : skipSpace s = bracket.closing :: rest) : SpellsItems bracket first s rest := by
  cases bracket with
  | square => exact ⟨[], closed⟩
  | curly => exact ⟨[], closed⟩

theorem items_further {bracket : Bracket} {s r q t rest : Bytes} {x : Outline}
    (comma : skipSpace s = octet ',' :: r) (leads : lead bracket r = .ok q) (value : x.Spells q t)
    (more : SpellsItems bracket false t rest) : SpellsItems bracket false s rest := by
  cases bracket with
  | square =>
    cases leads
    obtain ⟨xs, more⟩ := more
    exact ⟨x :: xs, r, t, comma, value, more⟩
  | curly =>
    obtain ⟨k, key⟩ := key_eq_ok_iff.1 leads
    obtain ⟨ms, more⟩ := more
    exact ⟨(k, x) :: ms, r, q, t, comma, key, value, more⟩

theorem items_first {bracket : Bracket} {s q t rest : Bytes} {x : Outline}
    (leads : lead bracket (skipSpace s) = .ok q) (value : x.Spells q t)
    (more : SpellsItems bracket false t rest) : SpellsItems bracket true s rest := by
  cases bracket with
  | square =>
    cases leads
    obtain ⟨xs, more⟩ := more
    exact ⟨x :: xs, s, t, rfl, spells_skipSpace.1 value, more⟩
  | curly =>
    obtain ⟨k, key⟩ := key_eq_ok_iff.1 leads
    obtain ⟨ms, more⟩ := more
    exact ⟨(k, x) :: ms, s, q, t, rfl, spellsKey_skipSpace.1 key, value, more⟩

theorem opening?_square : opening? (octet '[') = some .square := rfl

theorem opening?_curly : opening? (octet '\x7b') = some .curly := rfl

theorem square_of_opening {b : UInt8} (opens : opening? b = some .square) : b = octet '[' := by
  by_contra other
  rw [opening?, if_neg other] at opens
  split at opens <;> cases opens

theorem curly_of_opening {b : UInt8} (opens : opening? b = some .curly) : b = octet '\x7b' := by
  by_contra other
  rw [opening?, if_neg other] at opens
  split at opens <;> cases opens

theorem spells_of_items {b : UInt8} {bracket : Bracket} (opens : opening? b = some bracket)
    {s r rest : Bytes} (begins : skipSpace s = b :: r) (items : SpellsItems bracket true r rest) :
    ∃ x : Outline, x.Spells s rest := by
  cases bracket with
  | square =>
    obtain ⟨xs, elements⟩ := items
    exact ⟨.array xs, r, square_of_opening opens ▸ begins, elements⟩
  | curly =>
    obtain ⟨ms, members⟩ := items
    exact ⟨.object ms, r, curly_of_opening opens ▸ begins, members⟩

/-- What one call demands is shown from what the next ones do, whether they begin with a value or
go on behind one. -/
theorem closes_of_ok (fuel : Nat) :
    (∀ around s rest, value fuel around s = .ok rest →
      ∃ x t, Outline.Spells x s t ∧ Closes around t rest) ∧
    ∀ around s rest, after fuel around s = .ok rest → Closes around s rest := by
  induction fuel with
  | zero =>
    refine ⟨nofun, fun around s rest passed => ?_⟩
    cases around with
    | nil => exact Except.ok.inj passed
    | cons => cases passed
  | succ fuel ih =>
    obtain ⟨values, afters⟩ := ih
    constructor
    · intro around s rest passed
      rw [value] at passed
      cases begins : skipSpace s with
      | nil =>
        rw [begins] at passed
        cases passed
      | cons b r =>
        rw [begins] at passed
        cases opens : opening? b with
        | none =>
          simp only [opens] at passed
          obtain ⟨t, whole, further⟩ := Except.of_bind passed
          obtain ⟨c, p, same, plain, passes⟩ := Json.scalar_local whole
          refine ⟨.scalar (c :: p), t, ⟨?_, begins.trans same⟩, afters _ _ _ further⟩
          exact List.append_nil p ▸ passes [] stops_nil
        | some bracket =>
          simp only [opens] at passed
          cases inside : skipSpace r with
          | nil =>
            rw [inside] at passed
            cases passed
          | cons c inner =>
            simp only [inside] at passed
            by_cases closed : c = bracket.closing
            · rw [if_pos closed] at passed
              subst closed
              obtain ⟨x, spells⟩ := spells_of_items opens begins (items_closed true inside)
              exact ⟨x, inner, spells, afters _ _ _ passed⟩
            · rw [if_neg closed, ← inside] at passed
              obtain ⟨q, leads, further⟩ := Except.of_bind passed
              obtain ⟨x, t, spells, u, more, closes⟩ := values _ _ _ further
              obtain ⟨y, whole⟩ := spells_of_items opens begins (items_first leads spells more)
              exact ⟨y, u, whole, closes⟩
    · intro around s rest passed
      cases around with
      | nil => exact Except.ok.inj passed
      | cons bracket around =>
        rw [after] at passed
        cases begins : skipSpace s with
        | nil =>
          rw [begins] at passed
          cases passed
        | cons b r =>
          simp only [begins] at passed
          by_cases comma : b = octet ','
          · rw [if_pos comma] at passed
            subst comma
            obtain ⟨q, leads, further⟩ := Except.of_bind passed
            obtain ⟨x, t, spells, u, more, closes⟩ := values _ _ _ further
            exact ⟨u, items_further begins leads spells more, closes⟩
          rw [if_neg comma] at passed
          by_cases closed : b = bracket.closing
          · rw [if_pos closed] at passed
            exact ⟨r, items_closed false (closed ▸ begins), afters _ _ _ passed⟩
          · rw [if_neg closed] at passed
            cases passed

theorem value_opened {bracket : Bracket} {s r : Bytes} {b c : UInt8} {inner : Bytes}
    (opens : opening? b = some bracket) (begins : skipSpace s = b :: r)
    (inside : skipSpace r = c :: inner) (fuel : Nat) (around : List Bracket) :
    value (fuel + 1) around s =
      if c = bracket.closing then after fuel around inner
      else lead bracket (c :: inner) >>= value fuel (bracket :: around) := by
  rw [value, begins]
  simp only [opens, inside]

theorem value_skipSpace (fuel : Nat) (around : List Bracket) (s : Bytes) :
    value fuel around (skipSpace s) = value fuel around s := by
  cases fuel with
  | zero => rfl
  | succ fuel => rw [value, value, skipSpace_idem]

theorem after_comma {bracket : Bracket} {s r : Bytes} (comma : skipSpace s = octet ',' :: r)
    (fuel : Nat) (around : List Bracket) : after (fuel + 1) (bracket :: around) s =
      lead bracket r >>= value fuel (bracket :: around) := by
  rw [after, comma]
  exact if_pos rfl

theorem after_closing (bracket : Bracket) {s r : Bytes}
    (closed : skipSpace s = bracket.closing :: r) (fuel : Nat) (around : List Bracket) :
    after (fuel + 1) (bracket :: around) s = after fuel around r := by
  rw [after, closed]
  dsimp only
  rw [if_neg (by cases bracket <;> decide), if_pos rfl]

mutual

theorem value_of_spells {x : Outline} {s rest : Bytes} (spells : x.Spells s rest)
    (stops : Stops rest) : ∃ steps, steps + rest.length ≤ s.length ∧
      ∀ fuel around, value (fuel + steps) around s = after fuel around rest := by
  match x, spells with
  | .scalar octets, ⟨whole, begins⟩ =>
    have shorter := Spells.length_lt (x := .scalar octets) ⟨whole, begins⟩
    obtain ⟨b, p, rfl, plain, -, passes⟩ := scalar_begins whole
    refine ⟨1, by omega, fun fuel around => ?_⟩
    rw [value, begins]
    have passed := passes rest stops
    simp only [List.cons_append] at passed ⊢
    simp only [plain.2, passed]
    rfl
  | .array [], ⟨r, begins, closed⟩ =>
    have one := length_of_skipSpace begins
    have two := length_of_skipSpace closed
    refine ⟨1, by omega, fun fuel around => ?_⟩
    rw [value_opened opening?_square begins closed]
    exact if_pos rfl
  | .array (x :: xs), ⟨r, begins, _, t, led, first, more⟩ =>
    obtain rfl : r = _ := led
    obtain ⟨n, few, passes⟩ := value_of_spells first (stops_elements more)
    obtain ⟨m, fewer, further⟩ := after_of_elements more
    obtain ⟨c, inner, inside, other⟩ := first.begins
    have other : c ≠ Bracket.square.closing := other
    have one := length_of_skipSpace begins
    refine ⟨m + n + 1, by omega, fun fuel around => ?_⟩
    rw [← Nat.add_assoc, value_opened opening?_square begins inside,
      if_neg other, ← inside, ← Nat.add_assoc]
    exact (value_skipSpace ..).trans ((passes _ _).trans (further _ _))
  | .object [], ⟨r, begins, closed⟩ =>
    have one := length_of_skipSpace begins
    have two := length_of_skipSpace closed
    refine ⟨1, by omega, fun fuel around => ?_⟩
    rw [value_opened opening?_curly begins closed]
    exact if_pos rfl
  | .object ((k, x) :: ms), ⟨r, begins, _, q, t, led, key, first, more⟩ =>
    obtain rfl : r = _ := led
    obtain ⟨n, few, passes⟩ := value_of_spells first (stops_members more)
    obtain ⟨m, fewer, further⟩ := after_of_members more
    have one := length_of_skipSpace begins
    have two := key.length_lt
    obtain ⟨-, u, inside, -⟩ := id key
    refine ⟨m + n + 1, by omega, fun fuel around => ?_⟩
    rw [← Nat.add_assoc, value_opened opening?_curly begins inside,
      if_neg (by decide), ← inside, ← Nat.add_assoc]
    have leads : lead .curly (skipSpace r) = .ok q :=
      key_eq_ok_iff.2 ⟨k, spellsKey_skipSpace.2 key⟩
    rw [leads]
    exact (passes _ _).trans (further _ _)

theorem after_of_elements {xs : List Outline} {s rest : Bytes}
    (spells : SpellsElements false xs s rest) : ∃ steps, steps + rest.length ≤ s.length ∧
      ∀ fuel around, after (fuel + steps) (.square :: around) s = after fuel around rest := by
  match xs, spells with
  | [], closed =>
    have shorter := length_of_skipSpace closed
    exact ⟨1, by omega, after_closing .square closed⟩
  | x :: xs, ⟨r, t, comma, first, more⟩ =>
    obtain ⟨n, few, passes⟩ := value_of_spells first (stops_elements more)
    obtain ⟨m, fewer, further⟩ := after_of_elements more
    have shorter := length_of_skipSpace comma
    refine ⟨m + n + 1, by omega, fun fuel around => ?_⟩
    rw [← Nat.add_assoc, after_comma comma, ← Nat.add_assoc]
    exact (passes _ _).trans (further _ _)

theorem after_of_members {ms : List (Bytes × Outline)} {s rest : Bytes}
    (spells : SpellsMembers false ms s rest) : ∃ steps, steps + rest.length ≤ s.length ∧
      ∀ fuel around, after (fuel + steps) (.curly :: around) s = after fuel around rest := by
  match ms, spells with
  | [], closed =>
    have shorter := length_of_skipSpace closed
    exact ⟨1, by omega, after_closing .curly closed⟩
  | (k, x) :: ms, ⟨r, q, t, comma, key, first, more⟩ =>
    obtain ⟨n, few, passes⟩ := value_of_spells first (stops_members more)
    obtain ⟨m, fewer, further⟩ := after_of_members more
    have one := length_of_skipSpace comma
    have two := key.length_lt
    have leads : lead .curly r = .ok q := key_eq_ok_iff.2 ⟨k, key⟩
    refine ⟨m + n + 1, by omega, fun fuel around => ?_⟩
    rw [← Nat.add_assoc, after_comma comma, ← Nat.add_assoc, leads]
    exact (passes _ _).trans (further _ _)

end

end Skip

namespace Json

theorem skip_of_spells {x : Outline} {s rest : Bytes} (spells : x.Spells s rest)
    (stops : Numeral.Stops rest) : skip s = .ok rest := by
  obtain ⟨steps, enough, passes⟩ := Skip.value_of_spells spells stops
  obtain ⟨fuel, more⟩ : ∃ fuel, s.length + 1 = fuel + steps := ⟨s.length + 1 - steps, by omega⟩
  rw [skip, more, passes, Skip.after]

theorem spells_of_skip {s rest : Bytes} (passed : skip s = .ok rest) :
    ∃ x : Outline, x.Spells s rest := by
  obtain ⟨x, t, spells, rfl⟩ := (Skip.closes_of_ok _).1 _ _ _ passed
  exact ⟨x, spells⟩

end Json

end Lifecycle
