import Lifecycle.Proofs.Fields

/-! Tokens that break off. Of a beginning of a string or of a word, reading makes what it made of
the whole, if all of that is there, or it finds the input ended. A number that breaks off is
another number, so only of integers that 64 bits hold nothing worse can come; and passing over a
number is refused if nothing stands behind its sign. -/

namespace Lifecycle

open Scan Numeral

variable {α β γ : Type}

namespace Scan

/-- What can be read of the whole is read of the part as well, with a result that is akin, or the
part is too short. -/
def Waits (Akin : β → γ → Prop) (whole : Except Fault β) (part : Except Fault γ) : Prop :=
  ∀ b, whole = .ok b → part = .error .ended ∨ ∃ c, part = .ok c ∧ Akin b c

def Leaves (d : Bytes) (s r : Bytes) : Prop := s = r ++ d

inductive Reads (d : Bytes) : α × Bytes → α × Bytes → Prop
  | intro (a : α) (r : Bytes) : Reads d (a, r ++ d) (a, r)

theorem Waits.bind {β' γ' : Type} {Akin : β → γ → Prop} {Akin' : β' → γ' → Prop}
    {whole : Except Fault β} {part : Except Fault γ} {f : β → Except Fault β'}
    {g : γ → Except Fault γ'} (first : Waits Akin whole part)
    (then' : ∀ b c, Akin b c → Waits Akin' (f b) (g c)) :
    Waits Akin' (whole >>= f) (part >>= g) := by
  intro b' read
  obtain ⟨b, taken, last⟩ := Except.of_bind read
  rcases first b taken with short | ⟨c, taken', akin⟩
  · exact .inl (by rw [short]; rfl)
  · rw [taken']
    exact then' b c akin b' last

theorem waits_ok {Akin : β → γ → Prop} {b : β} {c : γ} (akin : Akin b c) :
    Waits Akin (.ok b) (.ok c) := by
  rintro _ ⟨⟩
  exact .inr ⟨c, rfl, akin⟩

theorem waits_error {Akin : β → γ → Prop} {fault : Fault} {part : Except Fault γ} :
    Waits Akin (.error fault) part := nofun

theorem waits_ended {Akin : β → γ → Prop} {whole : Except Fault β} :
    Waits Akin whole (.error .ended) := fun _ _ => .inl rfl

theorem word_waits (w c d : Bytes) : Waits (Leaves d) (word w (c ++ d)) (word w c) := by
  induction w generalizing c with
  | nil => exact waits_ok rfl
  | cons a w ih =>
    cases c with
    | nil => exact waits_ended
    | cons b c =>
      rw [List.cons_append, word, word]
      by_cases same : a = b
      · rw [if_pos same, if_pos same]
        exact ih c
      · rw [if_neg same]
        exact waits_error

theorem hexQuad_waits (c d : Bytes) : Waits (Reads d) (hexQuad (c ++ d)) (hexQuad c) := by
  match c with
  | [] | [_] | [_, _] | [_, _, _] => exact waits_ended
  | x :: y :: z :: w :: c =>
    simp only [List.cons_append, hexQuad]
    split
    · exact waits_ok (.intro ..)
    · exact waits_error

theorem unicodeEscape_waits (c d : Bytes) :
    Waits (Reads d) (unicodeEscape (c ++ d)) (unicodeEscape c) := by
  refine (hexQuad_waits c d).bind ?_
  rintro _ _ ⟨high, c⟩
  dsimp only
  split
  · exact waits_error
  split
  · exact waits_ok (.intro ..)
  refine (word_waits _ c d).bind ?_
  rintro _ c rfl
  refine (word_waits _ c d).bind ?_
  rintro _ c rfl
  refine (hexQuad_waits c d).bind ?_
  rintro _ _ ⟨low, c⟩
  dsimp only
  split
  · exact waits_error
  · exact waits_ok (.intro ..)

theorem escape_waits (c d : Bytes) : Waits (Reads d) (escape (c ++ d)) (escape c) := by
  cases c with
  | nil => exact waits_ended
  | cons b c =>
    rw [List.cons_append, escape, escape]
    split
    · refine (unicodeEscape_waits c d).bind ?_
      rintro _ _ ⟨a, c⟩
      exact waits_ok (.intro ..)
    · split
      · exact waits_ok (.intro ..)
      · exact waits_error

theorem stringOctets_waits (fuel fuel' : Nat) (done c d : Bytes) :
    Waits (Reads d) (stringOctets fuel done (c ++ d)) (stringOctets fuel' done c) := by
  induction fuel generalizing fuel' done c with
  | zero => exact waits_error
  | succ fuel ih =>
    match fuel', c with
    | 0, _ | _ + 1, [] => exact waits_ended
    | fuel' + 1, b :: c =>
      rw [List.cons_append, stringOctets, stringOctets]
      split
      · exact waits_ok (.intro ..)
      split
      · refine (escape_waits c d).bind ?_
        rintro _ _ ⟨octets, c⟩
        exact ih _ _ c
      split
      · exact waits_error
      · exact ih _ _ c

theorem string_waits (c d : Bytes) : Waits (Reads d) (string (c ++ d)) (string c) := by
  refine (stringOctets_waits _ _ [] c d).bind ?_
  rintro _ _ ⟨octets, c⟩
  dsimp only
  split
  · exact waits_ok (.intro ..)
  · exact waits_error

theorem skipEscape_waits (c d : Bytes) : Waits (Leaves d) (skipEscape (c ++ d)) (skipEscape c) := by
  cases c with
  | nil => exact waits_ended
  | cons b c =>
    rw [List.cons_append, skipEscape, skipEscape]
    split
    · refine (hexQuad_waits c d).bind ?_
      rintro _ _ ⟨a, c⟩
      exact waits_ok rfl
    · split
      · exact waits_ok rfl
      · exact waits_error

theorem skipOctets_waits (fuel fuel' : Nat) (c d : Bytes) :
    Waits (Leaves d) (skipOctets fuel (c ++ d)) (skipOctets fuel' c) := by
  induction fuel generalizing fuel' c with
  | zero => exact waits_error
  | succ fuel ih =>
    match fuel', c with
    | 0, _ | _ + 1, [] => exact waits_ended
    | fuel' + 1, b :: c =>
      rw [List.cons_append, skipOctets, skipOctets]
      split
      · exact waits_ok rfl
      split
      · refine (skipEscape_waits c d).bind ?_
        rintro _ c rfl
        exact ih _ c
      split
      · exact waits_error
      · exact ih _ c

theorem Leaves.ne_nil {d s r : Bytes} (leaves : Leaves d s r) (missing : d ≠ []) : s ≠ [] := by
  rintro rfl
  exact missing (List.append_eq_nil_iff.1 leaves.symm).2

theorem Reads.ne_nil {d : Bytes} {b c : α × Bytes} (reads : Reads d b c) (missing : d ≠ []) :
    b.2 ≠ [] := by
  cases reads with
  | intro a r => exact fun none => missing (List.append_eq_nil_iff.1 none).2

theorem word_short {w c d : Bytes} (whole : word w (c ++ d) = .ok []) (missing : d ≠ []) :
    word w c = .error .ended := by
  rcases word_waits w c d _ whole with short | ⟨r, -, leaves⟩
  · exact short
  · exact absurd rfl (leaves.ne_nil missing)

theorem string_short {c d : Bytes} {t : String} (whole : string (c ++ d) = .ok (t, []))
    (missing : d ≠ []) : string c = .error .ended := by
  rcases string_waits c d _ whole with short | ⟨r, -, reads⟩
  · exact short
  · exact absurd rfl (reads.ne_nil missing)

theorem skipString_short {c d : Bytes} (whole : skipString (c ++ d) = .ok [])
    (missing : d ≠ []) : skipString c = .error .ended := by
  rcases skipOctets_waits _ c.length c d _ whole with short | ⟨r, -, leaves⟩
  · exact short
  · exact absurd rfl (leaves.ne_nil missing)

end Scan

namespace Numeral

theorem digits_beginning {n : Nat} {c d : Bytes} (whole : (digitChars n).map octet = c ++ d)
    (some : c ≠ []) (missing : d ≠ []) :
    ∃ m, 0 < m ∧ m ≤ n ∧ c = (digitChars m).map octet := by
  induction n using Nat.strongRecOn generalizing d with
  | ind n ih =>
    obtain ⟨d, b, rfl⟩ := (List.eq_nil_or_concat d).resolve_left missing
    by_cases small : n < 10
    · have one : digitChars n = [n.digitChar] := Nat.toDigits_of_lt_base small
      have length := congrArg List.length whole
      have positive := List.length_pos_iff.2 some
      simp [one] at length
      omega
    · have more : digitChars n = digitChars (n / 10) ++ [(n % 10).digitChar] :=
        Nat.toDigits_of_base_le (by decide) (by omega)
      rw [more, List.map_append, List.concat_eq_append, ← List.append_assoc] at whole
      obtain ⟨whole, -⟩ := List.append_inj' whole rfl
      by_cases last : d = []
      · subst last
        exact ⟨n / 10, by omega, by omega, by simpa using whole.symm⟩
      · obtain ⟨m, positive, less, same⟩ := ih (n / 10) (by omega) whole last
        exact ⟨m, positive, by omega, same⟩

def IntegerLiteral (octets : Bytes) : Prop := ∃ n,
  octets = (digitChars n).map octet ∧ n < 2 ^ 64 ∨
    octets = octet '-' :: (digitChars n).map octet ∧ n ≤ 2 ^ 63

theorem IntegerLiteral.unsigned {b : UInt8} {octets : Bytes}
    (literal : IntegerLiteral (b :: octets)) (digit : isDigit b = true) :
    ∃ n, b :: octets = (digitChars n).map octet ∧ n < 2 ^ 64 := by
  obtain ⟨n, unsigned | ⟨signed, -⟩⟩ := literal
  · exact ⟨n, unsigned⟩
  · exact absurd (List.cons.inj signed).1 (Json.isDigit_ne digit (by decide))

theorem IntegerLiteral.signed {octets : Bytes} (literal : IntegerLiteral (octet '-' :: octets)) :
    ∃ n, octets = (digitChars n).map octet ∧ n ≤ 2 ^ 63 := by
  obtain ⟨n, ⟨unsigned, -⟩ | ⟨signed, small⟩⟩ := literal
  · obtain ⟨b, r, same, digit⟩ := Json.digits_begin n
    have minus := (List.cons.inj (unsigned.trans same)).1
    exact absurd minus.symm (Json.isDigit_ne digit (by decide))
  · exact ⟨n, (List.cons.inj signed).2, small⟩

end Numeral

namespace Json

/-- Reading that does not come to an end of its own: the input ends within it, or with it. -/
def Unfinished (outcome : Except Fault (α × Bytes)) : Prop :=
  outcome = .error .ended ∨ ∃ a, outcome = .ok (a, [])

theorem Unfinished.bind {outcome : Except Fault (α × Bytes)} (unfinished : Unfinished outcome)
    {f : α × Bytes → Except Fault β} (ended : ∀ a, f (a, []) = .error .ended) :
    (outcome >>= f) = .error .ended := by
  obtain rfl | ⟨a, rfl⟩ := unfinished
  · rfl
  · exact ended a

def IntegerIfNumber (octets : Bytes) : Prop :=
  (∃ b ∈ octets.head?, b = octet '-' ∨ isDigit b = true) → IntegerLiteral octets

theorem read_unfinished (negative : Bool) {n : Nat} (positive : 0 < n)
    (fits : n ≤ 2 ^ 63 ∨ negative = false ∧ n < 2 ^ 64) :
    ∃ x, Numeral.read negative ((digitChars n).map octet) = .ok (x, []) := by
  cases negative with
  | true =>
    have read := read_negative positive (fits.resolve_right (by simp)) stops_nil
    rw [List.append_nil] at read
    exact ⟨_, read⟩
  | false =>
    have word : n < wordLimit := by
      simp only [wordLimit]
      omega
    have read := read_natural word stops_nil
    rw [List.append_nil] at read
    exact ⟨_, read⟩

theorem word_unfinished {w c d : Bytes} {u v : Json}
    (whole : (word w (c ++ d) >>= fun s => .ok (u, s)) = .ok (v, [])) (missing : d ≠ []) :
    Unfinished (word w c >>= fun s => .ok (u, s)) := by
  obtain ⟨s, taken, last⟩ := Except.of_bind whole
  cases last
  rw [word_short taken missing]
  exact .inl rfl

theorem readScalar_torn {b : UInt8} {c d : Bytes} {v : Json}
    (whole : readScalar (b :: (c ++ d)) = .ok (v, [])) (missing : d ≠ [])
    (integer : IntegerIfNumber (b :: (c ++ d))) : Unfinished (readScalar (b :: c)) := by
  rcases scalar_cases b with rfl | rfl | rfl | rfl | digit | rfl | other
  · exact word_unfinished whole missing
  · exact word_unfinished whole missing
  · exact word_unfinished whole missing
  · obtain ⟨n, digits, small⟩ := (integer ⟨_, rfl, .inl rfl⟩).signed
    change Unfinished (Numeral.read true c >>= _)
    by_cases some : c = []
    · subst some
      exact .inl rfl
    · obtain ⟨m, positive, less, rfl⟩ := digits_beginning digits.symm some missing
      obtain ⟨x, read⟩ := read_unfinished true positive (.inl (by omega))
      rw [read]
      exact .inr ⟨_, rfl⟩
  · obtain ⟨n, digits, small⟩ := (integer ⟨_, rfl, .inr digit⟩).unsigned digit
    rw [← List.cons_append] at digits
    obtain ⟨m, positive, less, same⟩ := digits_beginning digits.symm (by simp) missing
    obtain ⟨x, read⟩ := read_unfinished false positive (.inr ⟨rfl, by omega⟩)
    rw [readScalar_digit digit, same, read]
    exact .inr ⟨_, rfl⟩
  · obtain ⟨⟨t, s⟩, taken, last⟩ := Except.of_bind (x := Scan.string (c ++ d)) whole
    cases last
    refine .inl ?_
    change (Scan.string c >>= _) = _
    rw [string_short taken missing]
    rfl
  · rw [other.2] at whole
    cases whole

/-- What is said of a value that is passed over when it breaks off: nothing may break off behind
the sign of a number, and else the input has ended. -/
def faultBehind (token : Bytes) : Fault := if token = [octet '-'] then .malformed else .ended

theorem skipScalar_torn {b : UInt8} {c d : Bytes} (whole : Skip.scalar (b :: (c ++ d)) = .ok [])
    (missing : d ≠ []) (integer : IntegerIfNumber (b :: (c ++ d))) :
    Skip.scalar (b :: c) = .error (faultBehind (b :: c)) ∨
      Skip.scalar (b :: c) = .ok [] ∧ faultBehind (b :: c) = .ended := by
  have plain {b : UInt8} {c : Bytes} (other : b ≠ octet '-') : faultBehind (b :: c) = .ended :=
    if_neg fun same => other (List.cons.inj same).1
  rcases scalar_cases b with rfl | rfl | rfl | rfl | digit | rfl | other
  · rw [plain (by decide)]
    exact .inl (word_short whole missing)
  · rw [plain (by decide)]
    exact .inl (word_short whole missing)
  · rw [plain (by decide)]
    exact .inl (word_short whole missing)
  · obtain ⟨n, digits, small⟩ := (integer ⟨_, rfl, .inl rfl⟩).signed
    by_cases some : c = []
    · subst some
      exact .inl rfl
    · obtain ⟨m, -, -, rfl⟩ := digits_beginning digits.symm some missing
      have scanned := scan_written .malformed true m stops_nil
      rw [List.append_nil] at scanned
      refine .inr ⟨?_, if_neg fun same => some (List.cons.inj same).2⟩
      change Numeral.skip true _ = _
      rw [Numeral.skip, scanned]
      rfl
  · obtain ⟨n, digits, small⟩ := (integer ⟨_, rfl, .inr digit⟩).unsigned digit
    rw [← List.cons_append] at digits
    obtain ⟨m, -, -, same⟩ := digits_beginning digits.symm (by simp) missing
    have passed := Reader.skip_natural m stops_nil
    rw [List.append_nil] at passed
    rw [plain (isDigit_ne digit (by decide)), same]
    exact .inr ⟨passed, rfl⟩
  · rw [plain (by decide)]
    exact .inl (skipString_short whole missing)
  · rw [other.1] at whole
    cases whole

end Json

end Lifecycle
