import Lifecycle.Json.Value
import Mathlib.Tactic.Common

/-! What is written is read back, token by token: a text from its octets, a string from between its
quotes with all escapes, and an integer from its digits. -/

namespace Lifecycle

namespace Text.Utf8

theorem toNat_toUInt8 {n : Nat} (small : n < 256) : n.toUInt8.toNat = n := by
  simpa [Nat.toUInt8, UInt8.toNat_ofNat'] using small

theorem encodeChar_of_lt {c : Char} (ascii : c.toNat < 0x80) : encodeChar c = [Scan.octet c] := by
  simp [encodeChar, ascii, Scan.octet]

theorem tailBits?_mod (n : Nat) : tailBits? (0x80 + n % 0x40).toUInt8 = some (n % 0x40) := by
  have toNat : (0x80 + n % 0x40).toUInt8.toNat = 0x80 + n % 0x40 := toNat_toUInt8 (by omega)
  rw [tailBits?, toNat, if_pos (by omega), Nat.add_sub_cancel_left]

theorem wideChar?_of_le {c : Char} {least n : Nat} (same : n = c.toNat) (wide : least ≤ c.toNat) :
    wideChar? least n = some c := by
  rw [wideChar?, same, if_pos ⟨wide, c.valid⟩, Char.ofNat_toNat]

theorem decode?_encodeChar (c : Char) (r : List UInt8) :
    decode? (encodeChar c ++ r) = (decode? r).map (c :: ·) := by
  have lt : c.toNat < 0x110000 := by
    have valid : c.toNat.isValidChar := c.valid
    rcases valid with valid | valid <;> omega
  unfold encodeChar
  generalize code : c.toNat = n at lt
  dsimp only
  split
  · have toNat : n.toUInt8.toNat = n := toNat_toUInt8 (by omega)
    rw [List.singleton_append, decode?.eq_def]
    dsimp only
    rw [toNat, if_pos (by omega), ← code, Char.ofNat_toNat]
  split
  · have toNat : (0xC0 + n / 0x40).toUInt8.toNat = 0xC0 + n / 0x40 := toNat_toUInt8 (by omega)
    have wide : wideChar? 0x80 ((0xC0 + n / 0x40 - 0xC0) * 0x40 + n % 0x40) = some c :=
      wideChar?_of_le (by omega) (by omega)
    simp only [List.cons_append, List.nil_append]
    rw [decode?.eq_def]
    dsimp only
    rw [toNat, if_neg (by omega), if_neg (by omega), if_pos (by omega), tailBits?_mod]
    simp only [Option.bind_eq_bind, Option.bind_some, wide]
  split
  · have toNat : (0xE0 + n / 0x1000).toUInt8.toNat = 0xE0 + n / 0x1000 :=
      toNat_toUInt8 (by omega)
    have wide : wideChar? 0x800
        (((0xE0 + n / 0x1000 - 0xE0) * 0x40 + n / 0x40 % 0x40) * 0x40 + n % 0x40) = some c :=
      wideChar?_of_le (by omega) (by omega)
    simp only [List.cons_append, List.nil_append]
    rw [decode?.eq_def]
    dsimp only
    rw [toNat, if_neg (by omega), if_neg (by omega), if_neg (by omega), if_pos (by omega),
      tailBits?_mod, tailBits?_mod]
    simp only [Option.bind_eq_bind, Option.bind_some, wide]
  · have toNat : (0xF0 + n / 0x40000).toUInt8.toNat = 0xF0 + n / 0x40000 :=
      toNat_toUInt8 (by omega)
    have wide : wideChar? 0x10000 ((((0xF0 + n / 0x40000 - 0xF0) * 0x40 + n / 0x1000 % 0x40) *
        0x40 + n / 0x40 % 0x40) * 0x40 + n % 0x40) = some c :=
      wideChar?_of_le (by omega) (by omega)
    simp only [List.cons_append, List.nil_append]
    rw [decode?.eq_def]
    dsimp only
    rw [toNat, if_neg (by omega), if_neg (by omega), if_neg (by omega), if_neg (by omega),
      if_pos (by omega), tailBits?_mod, tailBits?_mod, tailBits?_mod]
    simp only [Option.bind_eq_bind, Option.bind_some, wide]

theorem decode?_encode (cs : List Char) : decode? (encode cs) = some cs := by
  induction cs with
  | nil => rfl
  | cons c cs ih => rw [encode_cons, decode?_encodeChar, ih, Option.map_some]

theorem le_of_mem_encodeChar {c : Char} (wide : 0x80 ≤ c.toNat) :
    ∀ b ∈ encodeChar c, 0x80 ≤ b.toNat := by
  have lt : c.toNat < 0x110000 := by
    have valid : c.toNat.isValidChar := c.valid
    rcases valid with valid | valid <;> omega
  unfold encodeChar
  generalize c.toNat = n at wide lt
  dsimp only
  rw [if_neg (by omega)]
  have large {k : Nat} (least : 0x80 ≤ k) (most : k < 256) : 0x80 ≤ k.toUInt8.toNat := by
    rwa [toNat_toUInt8 most]
  split
  · simp only [List.mem_cons, List.not_mem_nil, or_false]
    rintro b (rfl | rfl) <;> exact large (by omega) (by omega)
  split
  · simp only [List.mem_cons, List.not_mem_nil, or_false]
    rintro b (rfl | rfl | rfl) <;> exact large (by omega) (by omega)
  · simp only [List.mem_cons, List.not_mem_nil, or_false]
    rintro b (rfl | rfl | rfl | rfl) <;> exact large (by omega) (by omega)

end Text.Utf8

namespace Scan

open Text.Utf8

theorem hexValue?_hexDigit : ∀ d < 16, hexValue? (octet (Json.hexDigit d)) = some d := by decide

theorem escape_control {c : Char} (control : c.toNat < 0x20) (s : Bytes) :
    escape (octet 'u' :: octet '0' :: octet '0' :: octet (Json.hexDigit (c.toNat / 16)) ::
      octet (Json.hexDigit (c.toNat % 16)) :: s) = .ok (encodeChar c, s) := by
  have zero : hexValue? (octet '0') = some 0 := by decide
  have high := hexValue?_hexDigit (c.toNat / 16) (by omega)
  have low := hexValue?_hexDigit (c.toNat % 16) (by omega)
  have code : ((0 * 16 + 0) * 16 + c.toNat / 16) * 16 + c.toNat % 16 = c.toNat := by omega
  have quad : hexQuad (octet '0' :: octet '0' :: octet (Json.hexDigit (c.toNat / 16)) ::
      octet (Json.hexDigit (c.toNat % 16)) :: s) = .ok (c.toNat, s) := by
    simp only [hexQuad, zero, high, low, code]
  have escaped : unicodeEscape (octet '0' :: octet '0' :: octet (Json.hexDigit (c.toNat / 16)) ::
      octet (Json.hexDigit (c.toNat % 16)) :: s) = .ok (c, s) := by
    rw [unicodeEscape, quad]
    change (if 0xDC00 ≤ c.toNat ∧ c.toNat ≤ 0xDFFF then _ else if c.toNat < 0xD800 ∨ _ then _
      else _) = _
    rw [if_neg (by omega), if_pos (by omega), Char.ofNat_toNat]
    rfl
  rw [escape, if_pos rfl, escaped]
  rfl

theorem escapeChar_cases (c : Char) :
    (∃ e, Json.escapeChar c = '\\' :: e ∧ ∀ s, escape (encode e ++ s) = .ok (encodeChar c, s)) ∨
      Json.escapeChar c = [c] ∧ c ≠ '"' ∧ c ≠ '\\' ∧ 0x20 ≤ c.toNat := by
  have short {letter : Char} (known : shortEscape? (octet letter) = some c)
      (ascii : c.toNat < 0x80 ∧ letter.toNat < 0x80) (plain : octet letter ≠ octet 'u')
      (s : Bytes) :
      escape (encode [letter] ++ s) = .ok (encodeChar c, s) := by
    rw [encode_cons, encodeChar_of_lt ascii.1, encodeChar_of_lt ascii.2]
    change escape (octet letter :: s) = _
    rw [escape, if_neg plain, known]
  unfold Json.escapeChar
  iterate 7
    split
    · next same =>
      exact .inl ⟨_, rfl, short (by subst same; rfl) (by subst same; decide) (by decide)⟩
  split
  · next control =>
    refine .inl ⟨_, rfl, fun s => ?_⟩
    have digit : ∀ d < 16, (Json.hexDigit d).toNat < 0x80 := by decide
    have high := encodeChar_of_lt (digit (c.toNat / 16) (by omega))
    have low := encodeChar_of_lt (digit (c.toNat % 16) (by omega))
    have octets : encode ['u', '0', '0', Json.hexDigit (c.toNat / 16),
        Json.hexDigit (c.toNat % 16)] = [octet 'u', octet '0', octet '0',
        octet (Json.hexDigit (c.toNat / 16)), octet (Json.hexDigit (c.toNat % 16))] := by
      rw [encode_cons, encode_cons, encode_cons, encode_cons, encode_cons, high, low]
      rfl
    rw [octets]
    exact escape_control control s
  · next quote backslash _ _ _ _ _ control =>
    exact .inr ⟨rfl, quote, backslash, Nat.le_of_not_lt control⟩

theorem stringOctets_plain {bs : Bytes}
    (plain : ∀ b ∈ bs, b ≠ octet '"' ∧ b ≠ octet '\\' ∧ ¬ b < 0x20)
    {fuel : Nat} (enough : bs.length ≤ fuel) (done s : Bytes) :
    stringOctets fuel done (bs ++ s) =
      stringOctets (fuel - bs.length) (bs.reverse ++ done) s := by
  induction bs generalizing fuel done with
  | nil => rfl
  | cons b bs ih =>
    obtain ⟨fuel, rfl⟩ : ∃ k, fuel = k + 1 := ⟨fuel - 1, by simp at enough; omega⟩
    obtain ⟨⟨quote, backslash, control⟩, rest⟩ := List.forall_mem_cons.1 plain
    rw [List.cons_append, stringOctets, if_neg quote, if_neg backslash, if_neg control,
      ih rest (by simpa using enough)]
    simp

theorem plain_encodeChar {c : Char} (quote : c ≠ '"') (backslash : c ≠ '\\')
    (visible : 0x20 ≤ c.toNat) :
    ∀ b ∈ encodeChar c, b ≠ octet '"' ∧ b ≠ octet '\\' ∧ ¬ b < 0x20 := by
  intro b mem
  by_cases ascii : c.toNat < 0x80
  · rw [encodeChar_of_lt ascii, List.mem_singleton] at mem
    have code : b.toNat = c.toNat := by
      rw [mem, octet, toNat_toUInt8 (by omega)]
    refine ⟨fun same => quote ?_, fun same => backslash ?_, fun small => ?_⟩
    · rw [← Char.ofNat_toNat c, ← code, same]
      rfl
    · rw [← Char.ofNat_toNat c, ← code, same]
      rfl
    · have small : b.toNat < 0x20 := UInt8.lt_iff_toNat_lt.1 small
      omega
  · have large := le_of_mem_encodeChar (Nat.le_of_not_lt ascii) b mem
    have apart {k : UInt8} (small : k.toNat < 0x80) : b ≠ k := by
      rintro rfl
      omega
    refine ⟨apart (by decide), apart (by decide), fun small => ?_⟩
    have small : b.toNat < 0x20 := UInt8.lt_iff_toNat_lt.1 small
    omega

theorem stringOctets_written (cs : List Char) (fuel : Nat) (done s : Bytes)
    (enough : (encode (cs.flatMap Json.escapeChar)).length < fuel) :
    stringOctets fuel done (encode (cs.flatMap Json.escapeChar) ++ octet '"' :: s) =
      .ok (done.reverse ++ encode cs, s) := by
  induction cs generalizing fuel done with
  | nil =>
    obtain ⟨fuel, rfl⟩ : ∃ k, fuel = k + 1 := ⟨fuel - 1, by omega⟩
    rw [List.flatMap_nil]
    change stringOctets (fuel + 1) done (octet '"' :: s) = _
    rw [stringOctets, if_pos rfl]
    simp [encode]
  | cons c cs ih =>
    rw [List.flatMap_cons, encode_append, List.length_append] at enough
    rw [List.flatMap_cons, encode_append, List.append_assoc, encode_cons]
    rcases escapeChar_cases c with ⟨e, escaped, read⟩ | ⟨same, quote, backslash, visible⟩
    · obtain ⟨fuel, rfl⟩ : ∃ k, fuel = k + 1 := ⟨fuel - 1, by omega⟩
      rw [escaped, encode_cons, List.length_append] at enough
      have begins : encodeChar '\\' = [octet '\\'] := rfl
      rw [escaped, encode_cons, begins, List.singleton_append, List.cons_append, stringOctets,
        if_neg (by decide), if_pos rfl, read]
      change stringOctets fuel _ _ = _
      rw [ih _ _ (by simp [begins] at enough; omega)]
      simp
    · rw [same, show encode [c] = encodeChar c from List.append_nil _] at enough ⊢
      rw [stringOctets_plain (plain_encodeChar quote backslash visible) (by omega),
        ih _ _ (by omega)]
      simp

theorem string_written (t : String) (s : Bytes) :
    string (encode (t.toList.flatMap Json.escapeChar) ++ octet '"' :: s) = .ok (t, s) := by
  have read := stringOctets_written t.toList (encode (t.toList.flatMap Json.escapeChar) ++
    octet '"' :: s).length [] s (by simp)
  rw [string, read]
  simp [bind, Except.bind, pure, Except.pure, decode?_encode]

end Scan

namespace Text.Utf8

theorem encode_of_ascii {cs : List Char} (ascii : ∀ c ∈ cs, c.toNat < 0x80) :
    encode cs = cs.map Scan.octet := by
  induction cs with
  | nil => rfl
  | cons c cs ih =>
    obtain ⟨first, rest⟩ := List.forall_mem_cons.1 ascii
    rw [encode_cons, encodeChar_of_lt first, ih rest, List.map_cons, List.singleton_append]

end Text.Utf8

namespace Numeral

open Scan

/-- What follows does not go on with a number. -/
def Stops (s : Bytes) : Prop := ∀ b ∈ s.head?,
  isDigit b = false ∧ b ≠ octet '.' ∧ b ≠ octet 'e' ∧ b ≠ octet 'E'

theorem toNat_octet_of_isDigit {c : Char} (digit : c.isDigit) :
    (octet c).toNat = c.toNat ∧ 48 ≤ c.toNat ∧ c.toNat ≤ 57 := by
  have bounds : 48 ≤ c.toNat ∧ c.toNat ≤ 57 := by
    simp only [Char.isDigit, Bool.and_eq_true, decide_eq_true_eq, ge_iff_le] at digit
    exact ⟨UInt32.le_iff_toNat_le.1 digit.1, UInt32.le_iff_toNat_le.1 digit.2⟩
  exact ⟨Text.Utf8.toNat_toUInt8 (by omega), bounds⟩

theorem isDigit_octet {c : Char} (digit : c.isDigit) : isDigit (octet c) := by
  obtain ⟨code, least, most⟩ := toNat_octet_of_isDigit digit
  simp only [isDigit, Bool.and_eq_true, decide_eq_true_eq, UInt8.le_iff_toNat_le, code]
  exact ⟨least, most⟩

def digitChars (n : Nat) : List Char := Nat.toDigits 10 n

theorem isDigit_of_mem {n : Nat} : ∀ c ∈ digitChars n, c.isDigit :=
  fun _ mem => Nat.isDigit_of_mem_toDigits (by decide) (by decide) mem

theorem encode_digitChars (n : Nat) :
    Text.Utf8.encode (digitChars n) = (digitChars n).map octet := by
  refine Text.Utf8.encode_of_ascii fun c mem => ?_
  have bounds := toNat_octet_of_isDigit (isDigit_of_mem c mem)
  omega

theorem takeWhile_of_stops {s : Bytes} (stops : Stops s) :
    s.takeWhile isDigit = [] ∧ s.dropWhile isDigit = s := by
  cases s with
  | nil => exact ⟨rfl, rfl⟩
  | cons b s =>
    obtain ⟨other, -⟩ := stops b rfl
    simp [other]

theorem digits_written (absent : Fault) (n : Nat) {s : Bytes} (stops : Stops s) :
    digits absent ((digitChars n).map octet ++ s) =
      .ok ((digitChars n).map fun c => c.toNat - 48, s) := by
  have all : ∀ b ∈ (digitChars n).map octet, isDigit b := by
    rw [List.forall_mem_map]
    exact fun c mem => isDigit_octet (isDigit_of_mem c mem)
  have values : digitsOf ((digitChars n).map octet ++ s) =
      (digitChars n).map fun c => c.toNat - 48 := by
    rw [digitsOf, List.takeWhile_append_of_pos all, (takeWhile_of_stops stops).1, List.append_nil,
      List.map_map]
    refine List.map_congr_left fun c mem => ?_
    rw [Function.comp_apply, (toNat_octet_of_isDigit (isDigit_of_mem c mem)).1]
  have rest : ((digitChars n).map octet ++ s).dropWhile isDigit = s := by
    rw [List.dropWhile_append_of_pos all, (takeWhile_of_stops stops).2]
  have taken : digits absent ((digitChars n).map octet ++ s) =
      .ok (digitsOf ((digitChars n).map octet ++ s),
        ((digitChars n).map octet ++ s).dropWhile isDigit) := by
    cases written : digitChars n with
    | nil => exact absurd written Nat.toDigits_ne_nil
    | cons c cs =>
      have first : isDigit (octet c) :=
        isDigit_octet (isDigit_of_mem (n := n) c (by simp [written]))
      rw [List.map_cons, List.cons_append, digits, if_pos first]
  rw [taken, values, rest]

theorem ofDigits_written (n : Nat) : ofDigits ((digitChars n).map fun c => c.toNat - 48) = n := by
  have same : Nat.ofDigitChars 10 (digitChars n) 0 = n := Nat.ofDigitChars_ten_toDigits
  rw [Nat.ofDigitChars_eq_foldl] at same
  rw [ofDigits, List.foldl_map]
  simpa [Nat.mul_comm] using same

theorem head_digitChars {n : Nat} (positive : 0 < n) : ∀ c ∈ (digitChars n).head?, c ≠ '0' := by
  induction n using Nat.strongRecOn with
  | ind n ih =>
    by_cases small : n < 10
    · have one : digitChars n = [n.digitChar] := Nat.toDigits_of_lt_base small
      have nonzero : ∀ k < 10, 0 < k → k.digitChar ≠ '0' := by decide
      rw [one]
      rintro c ⟨⟩
      exact nonzero n small positive
    · have more : digitChars n = digitChars (n / 10) ++ [(n % 10).digitChar] :=
        Nat.toDigits_of_base_le (by decide) (by omega)
      have some : digitChars (n / 10) ≠ [] := Nat.toDigits_ne_nil
      have first : (digitChars n).head? = (digitChars (n / 10)).head? := by
        rw [more]
        cases chars : digitChars (n / 10) with
        | nil => exact absurd chars some
        | cons => rfl
      rw [first]
      exact ih (n / 10) (by omega) (by omega)

theorem wholePart_written (absent : Fault) (n : Nat) {s : Bytes} (stops : Stops s) :
    wholePart absent ((digitChars n).map octet ++ s) =
      .ok ((digitChars n).map fun c => c.toNat - 48, s) := by
  have plain : ¬ (((digitChars n).map fun c => c.toNat - 48).head? = some 0 ∧
      1 < ((digitChars n).map fun c => c.toNat - 48).length) := by
    rintro ⟨zero, long⟩
    have positive : 0 < n := by
      by_contra none
      obtain rfl : n = 0 := by omega
      exact absurd long (by decide)
    rw [List.head?_map, Option.map_eq_some_iff] at zero
    obtain ⟨c, first, zero⟩ := zero
    have bounds := toNat_octet_of_isDigit (isDigit_of_mem c (List.mem_of_mem_head? first))
    refine head_digitChars positive c first ?_
    rw [← Char.ofNat_toNat c, show c.toNat = 48 by omega]
  rw [wholePart, digits_written absent n stops]
  exact if_neg plain

theorem scan_written (absent : Fault) (negative : Bool) (n : Nat) {s : Bytes} (stops : Stops s) :
    scan absent negative ((digitChars n).map octet ++ s) =
      .ok ({ negative, whole := (digitChars n).map fun c => c.toNat - 48 }, s) := by
  have fraction : fractionPart absent s = .ok (none, s) := by
    cases s with
    | nil => rfl
    | cons b s => rw [fractionPart]; exact if_neg (stops b rfl).2.1
  have exponent : exponentPart absent s = .ok (none, s) := by
    cases s with
    | nil => rfl
    | cons b s =>
      rw [exponentPart]
      exact if_neg (not_or.2 (stops b rfl).2.2)
  rw [scan, wholePart_written absent n stops]
  simp only [bind, Except.bind, fraction, exponent]
  rfl

theorem read_natural {n : Nat} (word : n < wordLimit) {s : Bytes} (stops : Stops s) :
    read false ((digitChars n).map octet ++ s) = .ok (.integer n, s) := by
  have value : Numeral.value
      { negative := false, whole := (digitChars n).map fun c => c.toNat - 48 } =
      .ok (.integer n) := by
    simp [Numeral.value, ofDigits_written, word]
  rw [read, scan_written .ended false n stops]
  simp only [bind, Except.bind, value]
  rfl

theorem read_negative {n : Nat} (positive : 0 < n) (word : n ≤ wordLimit / 2) {s : Bytes}
    (stops : Stops s) : read true ((digitChars n).map octet ++ s) = .ok (.integer (-n), s) := by
  have value : Numeral.value
      { negative := true, whole := (digitChars n).map fun c => c.toNat - 48 } =
      .ok (.integer (-n)) := by
    have fits : ¬ (n = 0 ∨ wordLimit / 2 < n) := by omega
    simp [Numeral.value, ofDigits_written, fits]
  rw [read, scan_written .ended true n stops]
  simp only [bind, Except.bind, value]
  rfl

end Numeral

end Lifecycle
