import Lifecycle.Proofs.Documents

/-! Where a token ends. What is read of a token depends on its own octets, and on those behind it
only in that they must not go on with a number; and a token that can be read can be passed over,
with the same end. -/

namespace Lifecycle

theorem Except.of_bind {ε α β : Type} {x : Except ε α} {f : α → Except ε β} {b : β}
    (bound : x >>= f = .ok b) : ∃ a, x = .ok a ∧ f a = .ok b := by
  cases x with
  | error fault => cases bound
  | ok a => exact ⟨a, rfl, bound⟩

namespace Scan

theorem word_eq_ok_iff {w s rest : Bytes} : word w s = .ok rest ↔ s = w ++ rest := by
  induction w generalizing s with
  | nil => simp [word]
  | cons a w ih =>
    cases s with
    | nil => simp [word]
    | cons b s =>
      rw [word, List.cons_append, List.cons.injEq, ← ih]
      split
      · next same => exact ⟨fun read => ⟨same.symm, read⟩, And.right⟩
      · next other => exact ⟨nofun, fun whole => absurd whole.1.symm other⟩

def Literal (b : UInt8) : Prop := b ≠ octet '"' ∧ b ≠ octet '\\' ∧ ¬ b < 0x20

theorem skipOctets_literal {b : UInt8} (literal : Literal b) (fuel : Nat) (s : Bytes) :
    skipOctets (fuel + 1) (b :: s) = skipOctets fuel s := by
  rw [skipOctets, if_neg literal.1, if_neg literal.2.1, if_neg literal.2.2]

theorem skipOctets_escape {s rest : Bytes} (escape : skipEscape s = .ok rest) (fuel : Nat) :
    skipOctets (fuel + 1) (octet '\\' :: s) = skipOctets fuel rest := by
  rw [skipOctets, if_neg (by decide), if_pos rfl, escape]
  rfl

theorem skipOctets_cases {fuel : Nat} {b : UInt8} {s rest : Bytes}
    (passed : skipOctets (fuel + 1) (b :: s) = .ok rest) :
    b = octet '"' ∧ s = rest ∨
      (b = octet '\\' ∧ ∃ r, skipEscape s = .ok r ∧ skipOctets fuel r = .ok rest) ∨
      Literal b ∧ skipOctets fuel s = .ok rest := by
  rw [skipOctets] at passed
  by_cases quote : b = octet '"'
  · rw [if_pos quote] at passed
    exact .inl ⟨quote, Except.ok.inj passed⟩
  rw [if_neg quote] at passed
  by_cases backslash : b = octet '\\'
  · rw [if_pos backslash] at passed
    exact .inr (.inl ⟨backslash, Except.of_bind passed⟩)
  rw [if_neg backslash] at passed
  by_cases control : b < 0x20
  · rw [if_pos control] at passed
    cases passed
  · rw [if_neg control] at passed
    exact .inr (.inr ⟨⟨quote, backslash, control⟩, passed⟩)

theorem skipOctets_mono {fuel more : Nat} (enough : fuel ≤ more) {s rest : Bytes}
    (passed : skipOctets fuel s = .ok rest) : skipOctets more s = .ok rest := by
  induction fuel generalizing more s with
  | zero => cases passed
  | succ fuel ih =>
    obtain ⟨more, rfl⟩ : ∃ k, more = k + 1 := ⟨more - 1, by omega⟩
    have fewer : fuel ≤ more := by omega
    cases s with
    | nil => cases passed
    | cons b s =>
      rcases skipOctets_cases passed with ⟨rfl, rfl⟩ | ⟨rfl, r, escape, further⟩ |
        ⟨literal, further⟩
      · rfl
      · rw [skipOctets_escape escape]
        exact ih fewer further
      · rw [skipOctets_literal literal]
        exact ih fewer further

/-- Octets inside a string that can be passed over. -/
def Passable (p : Bytes) : Prop := ∀ fuel s rest,
  skipOctets fuel s = .ok rest → skipOctets (fuel + p.length) (p ++ s) = .ok rest

theorem passable_nil : Passable [] := fun _ _ _ passed => passed

theorem Passable.append {p q : Bytes} (first : Passable p) (second : Passable q) :
    Passable (p ++ q) := by
  intro fuel s rest passed
  have whole := first _ _ _ (second _ _ _ passed)
  rwa [List.append_assoc, List.length_append, Nat.add_comm p.length, ← Nat.add_assoc]

theorem passable_literal {b : UInt8} (literal : Literal b) : Passable [b] := by
  intro fuel s rest passed
  exact (skipOctets_literal literal fuel s).trans passed

theorem passable_escape {p : Bytes} (escape : ∀ s, skipEscape (p ++ s) = .ok s) :
    Passable (octet '\\' :: p) := by
  intro fuel s rest passed
  change skipOctets (fuel + (p.length + 1)) (octet '\\' :: (p ++ s)) = _
  rw [← Nat.add_assoc, skipOctets_escape (escape s)]
  exact skipOctets_mono (Nat.le_add_right ..) passed

theorem hexQuad_local {s rest : Bytes} {n : Nat} (read : hexQuad s = .ok (n, rest)) :
    ∃ p, s = p ++ rest ∧ ∀ t, hexQuad (p ++ t) = .ok (n, t) := by
  unfold hexQuad at read
  split at read
  · next a b c d s =>
    refine ⟨[a, b, c, d], ?_⟩
    simp only [List.cons_append, List.nil_append, hexQuad]
    split at read
    · next one two three four =>
      cases read
      exact ⟨rfl, fun t => by simp [*]⟩
    · cases read
  · cases read

theorem skipEscape_quad {p : Bytes} {n : Nat} (quad : ∀ t, hexQuad (p ++ t) = .ok (n, t))
    (s : Bytes) : skipEscape (octet 'u' :: p ++ s) = .ok s := by
  rw [List.cons_append, skipEscape, if_pos rfl, quad]
  rfl

theorem unicodeEscape_local {s rest : Bytes} {c : Char} (read : unicodeEscape s = .ok (c, rest)) :
    ∃ p, s = p ++ rest ∧ (∀ t, unicodeEscape (p ++ t) = .ok (c, t)) ∧
      Passable (octet '\\' :: octet 'u' :: p) := by
  obtain ⟨⟨high, s'⟩, quad, further⟩ := Except.of_bind read
  obtain ⟨p, rfl, quads⟩ := hexQuad_local quad
  have passable := passable_escape (skipEscape_quad quads)
  dsimp only at further
  by_cases low : 0xDC00 ≤ high ∧ high ≤ 0xDFFF
  · rw [if_pos low] at further
    cases further
  rw [if_neg low] at further
  by_cases single : high < 0xD800 ∨ 0xDBFF < high
  · rw [if_pos single] at further
    cases further
    refine ⟨p, rfl, fun t => ?_, passable⟩
    rw [unicodeEscape, quads]
    change (if _ then _ else if _ then _ else _) = _
    rw [if_neg low, if_pos single]
    rfl
  -- a pair of surrogates takes two of the escapes that are passed over
  · rw [if_neg single] at further
    obtain ⟨s, backslash, further⟩ := Except.of_bind further
    obtain ⟨s, letter, further⟩ := Except.of_bind further
    obtain ⟨⟨low', s⟩, quad', last⟩ := Except.of_bind further
    obtain rfl := word_eq_ok_iff.1 backslash
    obtain rfl := word_eq_ok_iff.1 letter
    obtain ⟨q, rfl, quads'⟩ := hexQuad_local quad'
    dsimp only at last
    by_cases other : low' < 0xDC00 ∨ 0xDFFF < low'
    · rw [if_pos other] at last
      cases last
    rw [if_neg other] at last
    obtain ⟨rfl, rfl⟩ := Prod.mk.inj (Except.ok.inj last)
    refine ⟨p ++ (octet '\\' :: octet 'u' :: q), by simp, fun t => ?_,
      passable.append (passable_escape (skipEscape_quad quads'))⟩
    have mark (b : UInt8) (t : Bytes) : exactly b (b :: t) = .ok t := word_eq_ok_iff.2 rfl
    rw [unicodeEscape, List.append_assoc, quads]
    simp only [bind, Except.bind, if_neg low, if_neg single, List.cons_append, mark, quads',
      if_neg other, pure, Except.pure]

theorem escape_local {s octets rest : Bytes} (read : escape s = .ok (octets, rest)) :
    ∃ p, s = p ++ rest ∧ (∀ t, escape (p ++ t) = .ok (octets, t)) ∧
      Passable (octet '\\' :: p) := by
  cases s with
  | nil => cases read
  | cons b s =>
    rw [escape] at read
    by_cases letter : b = octet 'u'
    · rw [if_pos letter] at read
      obtain ⟨⟨c, s'⟩, unicode, read⟩ := Except.of_bind read
      cases read
      obtain ⟨p, rfl, reads, passable⟩ := unicodeEscape_local unicode
      subst letter
      refine ⟨octet 'u' :: p, rfl, fun t => ?_, passable⟩
      rw [List.cons_append, escape, if_pos rfl, reads]
      rfl
    · rw [if_neg letter] at read
      cases short : shortEscape? b with
      | none =>
        rw [short] at read
        cases read
      | some c =>
        rw [short] at read
        cases read
        refine ⟨[b], rfl, fun t => ?_, passable_escape fun t => ?_⟩
        · rw [List.singleton_append, escape, if_neg letter, short]
        · rw [List.singleton_append, skipEscape, if_neg letter, short]

theorem stringOctets_local {fuel : Nat} {done s octets rest : Bytes}
    (read : stringOctets fuel done s = .ok (octets, rest)) :
    ∃ k, s = k ++ octet '"' :: rest ∧ Passable k ∧ ∀ more t, k.length < more →
      stringOctets more done (k ++ octet '"' :: t) = .ok (octets, t) := by
  induction fuel generalizing done s with
  | zero => cases read
  | succ fuel ih =>
    cases s with
    | nil => cases read
    | cons b s =>
      rw [stringOctets] at read
      by_cases quote : b = octet '"'
      · rw [if_pos quote] at read
        cases read
        refine ⟨[], by rw [quote]; rfl, passable_nil, fun more t enough => ?_⟩
        obtain ⟨more, rfl⟩ : ∃ k, more = k + 1 := ⟨more - 1, by omega⟩
        rfl
      rw [if_neg quote] at read
      by_cases backslash : b = octet '\\'
      · rw [if_pos backslash] at read
        obtain ⟨⟨o, s'⟩, escaped, further⟩ := Except.of_bind read
        obtain ⟨p, rfl, reads, passable⟩ := escape_local escaped
        obtain ⟨k, rfl, passables, whole⟩ := ih further
        subst backslash
        refine ⟨octet '\\' :: p ++ k, by simp, passable.append passables, fun more t enough => ?_⟩
        obtain ⟨more, rfl⟩ : ∃ k, more = k + 1 := ⟨more - 1, by omega⟩
        rw [List.append_assoc, List.cons_append, stringOctets, if_neg quote, if_pos rfl, reads]
        refine whole more t ?_
        simp only [List.cons_append, List.length_cons, List.length_append] at enough
        omega
      rw [if_neg backslash] at read
      by_cases control : b < 0x20
      · rw [if_pos control] at read
        cases read
      rw [if_neg control] at read
      obtain ⟨k, rfl, passables, whole⟩ := ih read
      refine ⟨b :: k, rfl, (passable_literal ⟨quote, backslash, control⟩).append passables,
        fun more t enough => ?_⟩
      obtain ⟨more, rfl⟩ : ∃ k, more = k + 1 := ⟨more - 1, by omega⟩
      rw [List.cons_append, stringOctets, if_neg quote, if_neg backslash, if_neg control]
      exact whole more t (by simpa using enough)

theorem skipEscape_local {s rest : Bytes} (passed : skipEscape s = .ok rest) :
    ∃ p, s = p ++ rest ∧ ∀ t, skipEscape (p ++ t) = .ok t := by
  cases s with
  | nil => cases passed
  | cons b s =>
    rw [skipEscape] at passed
    by_cases letter : b = octet 'u'
    · rw [if_pos letter] at passed
      obtain ⟨⟨n, s'⟩, quad, passed⟩ := Except.of_bind passed
      cases passed
      obtain ⟨p, rfl, quads⟩ := hexQuad_local quad
      subst letter
      exact ⟨octet 'u' :: p, rfl, skipEscape_quad quads⟩
    · rw [if_neg letter] at passed
      cases short : shortEscape? b with
      | none =>
        rw [short] at passed
        cases passed
      | some c =>
        rw [short] at passed
        cases passed
        exact ⟨[b], rfl, fun t => by rw [List.singleton_append, skipEscape, if_neg letter, short]⟩

theorem skipOctets_local {fuel : Nat} {s rest : Bytes} (passed : skipOctets fuel s = .ok rest) :
    ∃ k, s = k ++ octet '"' :: rest ∧ Passable k := by
  induction fuel generalizing s with
  | zero => cases passed
  | succ fuel ih =>
    cases s with
    | nil => cases passed
    | cons b s =>
      rcases skipOctets_cases passed with ⟨rfl, rfl⟩ | ⟨rfl, r, escape, further⟩ |
        ⟨literal, further⟩
      · exact ⟨[], rfl, passable_nil⟩
      · obtain ⟨p, rfl, passes⟩ := skipEscape_local escape
        obtain ⟨k, rfl, passable⟩ := ih further
        exact ⟨octet '\\' :: p ++ k, by simp, (passable_escape passes).append passable⟩
      · obtain ⟨k, rfl, passable⟩ := ih further
        exact ⟨b :: k, rfl, (passable_literal literal).append passable⟩

def Inside (k : Bytes) : Prop := skipString (k ++ [octet '"']) = .ok []

theorem Passable.skipString {k : Bytes} (passable : Passable k) (rest : Bytes) :
    skipString (k ++ octet '"' :: rest) = .ok rest :=
  skipOctets_mono (by simp; omega) (passable 1 (octet '"' :: rest) rest rfl)

theorem skipString_eq_ok_iff {s rest : Bytes} :
    skipString s = .ok rest ↔ ∃ k, s = k ++ octet '"' :: rest ∧ Inside k := by
  constructor
  · intro passed
    obtain ⟨k, rfl, passable⟩ := skipOctets_local passed
    exact ⟨k, rfl, passable.skipString []⟩
  · rintro ⟨k, rfl, inside⟩
    obtain ⟨k', same, passable⟩ := skipOctets_local inside
    obtain rfl : k = k' := List.append_inj_left' same rfl
    exact passable.skipString rest

def text? (k : Bytes) : Option String :=
  match string (k ++ [octet '"']) with
  | .ok (t, []) => some t
  | _ => none

theorem text?_eq_some_iff {k : Bytes} {t : String} :
    text? k = some t ↔ string (k ++ [octet '"']) = .ok (t, []) := by
  unfold text?
  split
  · next t' read => simp [read]
  · next other => exact ⟨nofun, fun read => absurd read (other t)⟩

theorem string_local {s rest : Bytes} {t : String} (read : string s = .ok (t, rest)) :
    ∃ k, s = k ++ octet '"' :: rest ∧ Passable k ∧
      ∀ r, string (k ++ octet '"' :: r) = .ok (t, r) := by
  obtain ⟨⟨octets, s'⟩, scanned, closed⟩ := Except.of_bind read
  obtain ⟨k, rfl, passable, whole⟩ := stringOctets_local scanned
  dsimp only at closed
  cases decoded : Text.Utf8.decode? octets with
  | none =>
    rw [decoded] at closed
    cases closed
  | some cs =>
    rw [decoded] at closed
    cases closed
    refine ⟨k, rfl, passable, fun r => ?_⟩
    rw [string, whole _ r (by simp)]
    simp only [bind, Except.bind, decoded]
    rfl

theorem string_eq_ok_iff {s rest : Bytes} {t : String} :
    string s = .ok (t, rest) ↔ ∃ k, s = k ++ octet '"' :: rest ∧ text? k = some t := by
  constructor
  · intro read
    obtain ⟨k, rfl, -, whole⟩ := string_local read
    exact ⟨k, rfl, text?_eq_some_iff.2 (whole [])⟩
  · rintro ⟨k, rfl, text⟩
    obtain ⟨k', same, -, whole⟩ := string_local (text?_eq_some_iff.1 text)
    obtain rfl : k = k' := List.append_inj_left' same rfl
    exact whole rest

theorem inside_of_text? {k : Bytes} {t : String} (text : text? k = some t) : Inside k := by
  obtain ⟨k', same, passable, -⟩ := string_local (text?_eq_some_iff.1 text)
  obtain rfl : k = k' := List.append_inj_left' same rfl
  exact passable.skipString []

end Scan

namespace Numeral

open Scan

def Halts (s : Bytes) : Prop := ∀ b ∈ s.head?, isDigit b = false

theorem Stops.halts {s : Bytes} (stops : Stops s) : Halts s := fun b first => (stops b first).1

theorem stops_nil : Stops [] := nofun

theorem digits_local {absent : Fault} {s rest : Bytes} {ds : List Nat}
    (read : digits absent s = .ok (ds, rest)) :
    ∃ b p, isDigit b = true ∧ s = b :: (p ++ rest) ∧ ∀ other t, Halts t →
      digits other (b :: (p ++ t)) = .ok (ds, t) := by
  cases s with
  | nil => cases read
  | cons b s =>
    rw [digits] at read
    by_cases digit : isDigit b = true
    · rw [if_pos digit] at read
      cases read
      refine ⟨b, s.takeWhile isDigit, digit, ?_, fun other t halts => ?_⟩
      · rw [List.dropWhile_cons_of_pos digit, List.takeWhile_append_dropWhile]
      have all : ∀ c ∈ b :: s.takeWhile isDigit, isDigit c :=
        List.forall_mem_cons.2 ⟨digit, List.all_eq_true.1 List.all_takeWhile⟩
      have none : t.takeWhile isDigit = [] ∧ t.dropWhile isDigit = t := by
        cases t with
        | nil => exact ⟨rfl, rfl⟩
        | cons c t => simp [halts c rfl]
      have values : digitsOf (b :: (s.takeWhile isDigit ++ t)) = digitsOf (b :: s) := by
        rw [digitsOf, ← List.cons_append, List.takeWhile_append_of_pos all, none.1,
          List.append_nil, digitsOf, List.takeWhile_cons_of_pos digit]
      have behind : (b :: (s.takeWhile isDigit ++ t)).dropWhile isDigit = t := by
        rw [← List.cons_append, List.dropWhile_append_of_pos all, none.2]
      rw [digits, if_pos digit, values, behind]
    · rw [if_neg digit] at read
      cases read

theorem wholePart_local {absent : Fault} {s rest : Bytes} {ds : List Nat}
    (read : wholePart absent s = .ok (ds, rest)) :
    ∃ b p, s = b :: (p ++ rest) ∧ ∀ other t, Halts t →
      wholePart other (b :: (p ++ t)) = .ok (ds, t) := by
  obtain ⟨⟨ds', s'⟩, taken, checked⟩ := Except.of_bind read
  obtain ⟨b, p, -, rfl, takes⟩ := digits_local taken
  dsimp only at checked
  by_cases zero : ds'.head? = some 0 ∧ 1 < ds'.length
  · rw [if_pos zero] at checked
    cases checked
  · rw [if_neg zero] at checked
    cases checked
    refine ⟨b, p, rfl, fun other t halts => ?_⟩
    rw [wholePart, takes other t halts]
    exact if_neg zero

theorem fractionPart_none (absent : Fault) {s : Bytes} (point : octet '.' ∉ s.head?) :
    fractionPart absent s = .ok (none, s) := by
  cases s with
  | nil => rfl
  | cons b s =>
    have point : b ≠ octet '.' := by simpa using point
    exact if_neg point

theorem fractionPart_local {absent : Fault} {s rest : Bytes} {fraction : Option (List Nat)}
    (read : fractionPart absent s = .ok (fraction, rest)) :
    ∃ p, s = p ++ rest ∧ ∀ other t, Halts t → octet '.' ∉ t.head? →
      fractionPart other (p ++ t) = .ok (fraction, t) ∧ Halts (p ++ t) := by
  by_cases point : octet '.' ∈ s.head?
  · obtain ⟨s, rfl⟩ := List.head?_eq_some_iff.1 point
    rw [fractionPart, if_pos rfl] at read
    obtain ⟨⟨ds, s'⟩, taken, done⟩ := Except.of_bind read
    cases done
    obtain ⟨b, p, -, rfl, takes⟩ := digits_local taken
    refine ⟨octet '.' :: b :: p, rfl, fun other t halts _ => ⟨?_, ?_⟩⟩
    · rw [List.cons_append, fractionPart, if_pos rfl, List.cons_append, takes other t halts]
      rfl
    · rintro c ⟨⟩
      decide
  · rw [fractionPart_none absent point] at read
    cases read
    exact ⟨[], rfl, fun other t halts point => ⟨fractionPart_none other point, halts⟩⟩

theorem exponentPart_none (absent : Fault) {s : Bytes}
    (letter : ∀ b ∈ s.head?, ¬ (b = octet 'e' ∨ b = octet 'E')) :
    exponentPart absent s = .ok (none, s) := by
  cases s with
  | nil => rfl
  | cons b s => exact if_neg (letter b rfl)

theorem exponentSign_local (s : Bytes) :
    ∃ p, s = p ++ (exponentSign s).2 ∧ ∀ b t, isDigit b = true →
      exponentSign (p ++ b :: t) = ((exponentSign s).1, b :: t) := by
  have unsigned (b : UInt8) (t : Bytes) (digit : isDigit b = true) :
      exponentSign (b :: t) = (false, b :: t) := by
    rw [exponentSign, if_neg (by rintro rfl; exact absurd digit (by decide)),
      if_neg (by rintro rfl; exact absurd digit (by decide))]
  cases s with
  | nil => exact ⟨[], rfl, unsigned⟩
  | cons b s =>
    by_cases minus : b = octet '-'
    · subst minus
      exact ⟨[octet '-'], rfl, fun _ _ _ => rfl⟩
    by_cases plus : b = octet '+'
    · subst plus
      exact ⟨[octet '+'], rfl, fun _ _ _ => rfl⟩
    · rw [exponentSign, if_neg minus, if_neg plus]
      exact ⟨[], rfl, unsigned⟩

theorem exponentPart_local {absent : Fault} {s rest : Bytes}
    {exponent : Option (Bool × List Nat)}
    (read : exponentPart absent s = .ok (exponent, rest)) :
    ∃ p, s = p ++ rest ∧ ∀ other t, Stops t →
      exponentPart other (p ++ t) = .ok (exponent, t) ∧ Halts (p ++ t) ∧
        octet '.' ∉ (p ++ t).head? := by
  by_cases raised : ∃ b ∈ s.head?, b = octet 'e' ∨ b = octet 'E'
  · obtain ⟨b, begins, letter⟩ := raised
    obtain ⟨s, rfl⟩ := List.head?_eq_some_iff.1 begins
    rw [exponentPart, if_pos letter] at read
    obtain ⟨⟨ds, s'⟩, taken, done⟩ := Except.of_bind read
    cases done
    change digits absent (exponentSign s).2 = _ at taken
    obtain ⟨p, same, signs⟩ := exponentSign_local s
    obtain ⟨d, q, digit, behind, takes⟩ := digits_local taken
    refine ⟨b :: (p ++ d :: q), by rw [same, behind]; simp, fun other t stops => ⟨?_, ?_, ?_⟩⟩
    · rw [List.cons_append, exponentPart, if_pos letter, List.append_assoc, List.cons_append,
        signs d _ digit]
      dsimp only
      rw [takes other t stops.halts]
      rfl
    · rintro c ⟨⟩
      rcases letter with rfl | rfl <;> decide
    · rintro ⟨⟩
      exact absurd letter (by decide)
  · have plain : ∀ b ∈ s.head?, ¬ (b = octet 'e' ∨ b = octet 'E') := fun b first letter =>
      raised ⟨b, first, letter⟩
    rw [exponentPart_none absent plain] at read
    cases read
    refine ⟨[], rfl, fun other t stops => ⟨exponentPart_none other fun b first => ?_, stops.halts,
      fun point => (stops _ point).2.1 rfl⟩⟩
    exact not_or.2 (stops b first).2.2

theorem scan_local {absent : Fault} {negative : Bool} {s rest : Bytes} {x : Numeral}
    (read : scan absent negative s = .ok (x, rest)) :
    ∃ b p, s = b :: (p ++ rest) ∧ ∀ other t, Stops t →
      scan other negative (b :: (p ++ t)) = .ok (x, t) := by
  obtain ⟨⟨whole, s₁⟩, first, further⟩ := Except.of_bind read
  obtain ⟨⟨fraction, s₂⟩, second, further⟩ := Except.of_bind further
  obtain ⟨⟨exponent, s₃⟩, third, done⟩ := Except.of_bind further
  cases done
  obtain ⟨b, p, rfl, wholes⟩ := wholePart_local first
  obtain ⟨q, rfl, fractions⟩ := fractionPart_local second
  obtain ⟨r, rfl, exponents⟩ := exponentPart_local third
  refine ⟨b, p ++ (q ++ r), by simp, fun other t stops => ?_⟩
  obtain ⟨exponent', halts, point⟩ := exponents other t stops
  obtain ⟨fraction', halts'⟩ := fractions other (r ++ t) halts point
  rw [scan, List.append_assoc, List.append_assoc, wholes other _ halts']
  simp only [bind, Except.bind, fraction', exponent', pure, Except.pure]

theorem read_local {negative : Bool} {s rest : Bytes} {n : Number}
    (done : read negative s = .ok (n, rest)) :
    ∃ b p, s = b :: (p ++ rest) ∧ ∀ t, Stops t →
      read negative (b :: (p ++ t)) = .ok (n, t) ∧ skip negative (b :: (p ++ t)) = .ok t := by
  obtain ⟨⟨x, s'⟩, scanned, further⟩ := Except.of_bind done
  obtain ⟨n', value, last⟩ := Except.of_bind further
  cases last
  obtain ⟨b, p, rfl, scans⟩ := scan_local scanned
  refine ⟨b, p, rfl, fun t stops => ⟨?_, ?_⟩⟩
  · rw [read, scans .ended t stops]
    simp only [bind, Except.bind, value, pure, Except.pure]
  · rw [skip, scans .malformed t stops]
    rfl

theorem skip_local {negative : Bool} {s rest : Bytes} (done : skip negative s = .ok rest) :
    ∃ b p, s = b :: (p ++ rest) ∧ ∀ t, Stops t → skip negative (b :: (p ++ t)) = .ok t := by
  obtain ⟨⟨x, s'⟩, scanned, last⟩ := Except.of_bind done
  cases last
  obtain ⟨b, p, rfl, scans⟩ := scan_local scanned
  refine ⟨b, p, rfl, fun t stops => ?_⟩
  rw [skip, scans .malformed t stops]
  rfl

end Numeral

namespace Json

open Scan Numeral

theorem scalar_cases (b : UInt8) :
    b = octet 'n' ∨ b = octet 't' ∨ b = octet 'f' ∨ b = octet '-' ∨ isDigit b = true ∨
      b = octet '"' ∨
      (∀ s, Skip.scalar (b :: s) = .error .malformed) ∧
        ∀ s, readScalar (b :: s) = .error .malformed := by
  by_cases null : b = octet 'n'
  · exact .inl null
  by_cases affirmed : b = octet 't'
  · exact .inr (.inl affirmed)
  by_cases denied : b = octet 'f'
  · exact .inr (.inr (.inl denied))
  by_cases minus : b = octet '-'
  · exact .inr (.inr (.inr (.inl minus)))
  by_cases digit : isDigit b = true
  · exact .inr (.inr (.inr (.inr (.inl digit))))
  by_cases quote : b = octet '"'
  · exact .inr (.inr (.inr (.inr (.inr (.inl quote)))))
  · refine .inr (.inr (.inr (.inr (.inr (.inr ⟨fun s => ?_, fun s => ?_⟩)))))
    · simp [Skip.scalar, null, affirmed, denied, minus, digit, quote]
    · simp [readScalar, null, affirmed, denied, minus, digit, quote]

theorem scalar_digit {b : UInt8} (digit : isDigit b = true) (s : Bytes) :
    Skip.scalar (b :: s) = Numeral.skip false (b :: s) := by
  rw [Skip.scalar, if_neg (isDigit_ne digit (by decide)), if_neg (isDigit_ne digit (by decide)),
    if_neg (isDigit_ne digit (by decide)), if_neg (isDigit_ne digit (by decide)), if_pos digit]

theorem readScalar_digit {b : UInt8} (digit : isDigit b = true) (s : Bytes) :
    readScalar (b :: s) = do
      let (n, s) ← Numeral.read false (b :: s)
      return (number n, s) := by
  rw [readScalar, if_neg (isDigit_ne digit (by decide)), if_neg (isDigit_ne digit (by decide)),
    if_neg (isDigit_ne digit (by decide)), if_neg (isDigit_ne digit (by decide)), if_pos digit]

def Plain (b : UInt8) : Prop := isSpace b = false ∧ Skip.opening? b = none

theorem plain_of_isDigit {b : UInt8} (digit : isDigit b = true) : Plain b :=
  ⟨isSpace_of_isDigit digit, by
    rw [Skip.opening?, if_neg (isDigit_ne digit (by decide)),
      if_neg (isDigit_ne digit (by decide))]⟩

theorem scalar_local {s rest : Bytes} (passed : Skip.scalar s = .ok rest) :
    ∃ b p, s = b :: (p ++ rest) ∧ Plain b ∧
      ∀ t, Stops t → Skip.scalar (b :: (p ++ t)) = .ok t := by
  have literal {w t : Bytes} : word w (w ++ t) = .ok t := word_eq_ok_iff.2 rfl
  cases s with
  | nil => cases passed
  | cons b s =>
    rcases scalar_cases b with rfl | rfl | rfl | rfl | digit | rfl | other
    · obtain rfl := word_eq_ok_iff.1 passed
      exact ⟨_, restOfNull, rfl, ⟨by decide, by decide⟩, fun t _ => literal⟩
    · obtain rfl := word_eq_ok_iff.1 passed
      exact ⟨_, restOfTrue, rfl, ⟨by decide, by decide⟩, fun t _ => literal⟩
    · obtain rfl := word_eq_ok_iff.1 passed
      exact ⟨_, restOfFalse, rfl, ⟨by decide, by decide⟩, fun t _ => literal⟩
    · obtain ⟨c, p, rfl, skips⟩ := skip_local passed
      exact ⟨_, c :: p, rfl, ⟨by decide, by decide⟩, skips⟩
    · rw [scalar_digit digit] at passed
      obtain ⟨c, p, same, skips⟩ := skip_local passed
      obtain ⟨rfl, rfl⟩ := List.cons.inj same
      exact ⟨b, p, rfl, plain_of_isDigit digit, fun t stops => by
        rw [scalar_digit digit, skips t stops]⟩
    · obtain ⟨k, rfl, inside⟩ := skipString_eq_ok_iff.1 passed
      refine ⟨octet '"', k ++ [octet '"'], by simp, ⟨by decide, by decide⟩, fun t _ => ?_⟩
      exact skipString_eq_ok_iff.2 ⟨k, by simp, inside⟩
    · rw [other.1] at passed
      cases passed

theorem readScalar_local {s rest : Bytes} {v : Json} (read : readScalar s = .ok (v, rest)) :
    ∃ b p, s = b :: (p ++ rest) ∧ ∀ t, Stops t →
      readScalar (b :: (p ++ t)) = .ok (v, t) ∧ Skip.scalar (b :: (p ++ t)) = .ok t := by
  have literal {w t : Bytes} : word w (w ++ t) = .ok t := word_eq_ok_iff.2 rfl
  cases s with
  | nil => cases read
  | cons b s =>
    rcases scalar_cases b with rfl | rfl | rfl | rfl | digit | rfl | other
    · obtain ⟨s', passed, last⟩ := Except.of_bind (x := word restOfNull s) read
      obtain rfl := word_eq_ok_iff.1 passed
      cases last
      exact ⟨_, restOfNull, rfl, fun t _ => ⟨rfl, literal⟩⟩
    · obtain ⟨s', passed, last⟩ := Except.of_bind (x := word restOfTrue s) read
      obtain rfl := word_eq_ok_iff.1 passed
      cases last
      exact ⟨_, restOfTrue, rfl, fun t _ => ⟨rfl, literal⟩⟩
    · obtain ⟨s', passed, last⟩ := Except.of_bind (x := word restOfFalse s) read
      obtain rfl := word_eq_ok_iff.1 passed
      cases last
      exact ⟨_, restOfFalse, rfl, fun t _ => ⟨rfl, literal⟩⟩
    · obtain ⟨⟨n, s'⟩, done, last⟩ := Except.of_bind (x := Numeral.read true s) read
      cases last
      obtain ⟨c, p, rfl, reads⟩ := read_local done
      refine ⟨_, c :: p, rfl, fun t stops => ⟨?_, (reads t stops).2⟩⟩
      change (Numeral.read true (c :: (p ++ t)) >>= _) = _
      rw [(reads t stops).1]
      rfl
    · rw [readScalar_digit digit] at read
      obtain ⟨⟨n, s'⟩, done, last⟩ := Except.of_bind read
      cases last
      obtain ⟨c, p, same, reads⟩ := read_local done
      obtain ⟨rfl, rfl⟩ := List.cons.inj same
      refine ⟨b, p, rfl, fun t stops => ⟨?_, ?_⟩⟩
      · rw [readScalar_digit digit, (reads t stops).1]
        rfl
      · rw [scalar_digit digit, (reads t stops).2]
    · obtain ⟨⟨t, s'⟩, done, last⟩ := Except.of_bind (x := Scan.string s) read
      cases last
      obtain ⟨k, rfl, text⟩ := string_eq_ok_iff.1 done
      refine ⟨octet '"', k ++ [octet '"'], by simp, fun r _ => ⟨?_, ?_⟩⟩
      · have done : Scan.string (k ++ [octet '"'] ++ r) = .ok (t, r) :=
          string_eq_ok_iff.2 ⟨k, by simp, text⟩
        change (Scan.string (k ++ [octet '"'] ++ r) >>= _) = _
        rw [done]
        rfl
      · exact skipString_eq_ok_iff.2 ⟨k, by simp, inside_of_text? text⟩
    · rw [other.2] at read
      cases read

end Json

end Lifecycle
