import Lifecycle.Proofs.Tokens

/-! A value is read back from its document. Main statement: of a value whose keys ascend and whose
numbers are integers of 64 bits, reading with room for so many nested arrays and objects gives the
value if it is nested no deeper than that, and else a fault. -/

namespace Lifecycle

namespace Members

variable {α : Type}

theorem insert_of_lt {key : String} {value : α} {m : Members α} (last : ∀ k ∈ m.keys, k < key) :
    m.insert key value = m ++ [(key, value)] := by
  induction m with
  | nil => rfl
  | cons x m ih =>
    obtain ⟨k, v⟩ := x
    obtain ⟨less, rest⟩ := List.forall_mem_cons.1 last
    have other : key ≠ k := fun same => String.lt_irrefl k (same ▸ less)
    rw [insert, if_neg (String.lt_asymm less), if_neg other, ih rest]
    rfl

end Members

namespace Json

open Scan Numeral Text.Utf8

mutual

/-- Every number is an integer that 64 bits hold, with or without a sign. -/
def Integral : Json → Prop
  | number (.integer n) => -9223372036854775808 ≤ n ∧ n < 18446744073709551616
  | number (.float _) => False
  | array xs => IntegralElements xs
  | object xs => IntegralMembers xs
  | _ => True

def IntegralElements : List Json → Prop
  | [] => True
  | x :: xs => Integral x ∧ IntegralElements xs

def IntegralMembers : List (String × Json) → Prop
  | [] => True
  | (_, x) :: xs => Integral x ∧ IntegralMembers xs

end

def stringBytes (t : String) : Bytes := encode (stringChars t)

theorem stringBytes_append (t : String) (s : Bytes) : stringBytes t ++ s =
    octet '"' :: (encode (t.toList.flatMap escapeChar) ++ octet '"' :: s) := by
  have quote : encodeChar '"' = [octet '"'] := rfl
  simp [stringBytes, stringChars, quote, encode]

theorem bytes_integer (n : Int) : (integer n).bytes =
    if n < 0 then octet '-' :: (digitChars n.natAbs).map octet
    else (digitChars n.natAbs).map octet := by
  have minus : encodeChar '-' = [octet '-'] := rfl
  change encode (integerChars n) = _
  unfold integerChars
  split
  · rw [encode_cons, minus]
    exact congrArg _ (encode_digitChars _)
  · exact encode_digitChars _

/-- Octets with which a value may begin: they are no blank and close nothing. -/
def Leads (s : Bytes) : Prop := ∃ b r, s = b :: r ∧ isSpace b = false ∧ b ≠ octet ']'

theorem isSpace_of_isDigit {b : UInt8} (digit : isDigit b) : isSpace b = false := by
  simp only [isDigit, Bool.and_eq_true, decide_eq_true_eq, UInt8.le_iff_toNat_le] at digit
  have least : 48 ≤ b.toNat := digit.1
  have apart {k : UInt8} (small : k.toNat < 48) : (b == k) = false := by
    refine beq_eq_false_iff_ne.2 ?_
    rintro rfl
    omega
  simp [isSpace, apart (k := octet ' ') (by decide), apart (k := octet '\t') (by decide),
    apart (k := octet '\n') (by decide), apart (k := octet '\r') (by decide)]

theorem digits_begin (n : Nat) : ∃ b r, (digitChars n).map octet = b :: r ∧ isDigit b := by
  cases written : digitChars n with
  | nil => exact absurd written Nat.toDigits_ne_nil
  | cons c cs =>
    have mem : c ∈ digitChars n := by simp [written]
    exact ⟨octet c, cs.map octet, rfl, isDigit_octet (isDigit_of_mem c mem)⟩

theorem isDigit_ne {b : UInt8} (digit : isDigit b) {c : Char} (other : ¬ isDigit (octet c)) :
    b ≠ octet c := fun same => other (same ▸ digit)

theorem leads_digits (n : Nat) (s : Bytes) : Leads ((digitChars n).map octet ++ s) := by
  obtain ⟨b, r, same, digit⟩ := digits_begin n
  exact ⟨b, r ++ s, by rw [same]; rfl, isSpace_of_isDigit digit, isDigit_ne digit (by decide)⟩

theorem leads_bytes {v : Json} (integral : v.Integral) (s : Bytes) : Leads (v.bytes ++ s) := by
  cases v with
  | null => exact ⟨octet 'n', _, rfl, by decide, by decide⟩
  | bool b =>
    cases b with
    | true => exact ⟨octet 't', _, rfl, by decide, by decide⟩
    | false => exact ⟨octet 'f', _, rfl, by decide, by decide⟩
  | number n =>
    cases n with
    | float x => cases integral
    | integer n =>
      change Leads ((integer n).bytes ++ s)
      rw [bytes_integer]
      split
      · exact ⟨octet '-', _, rfl, by decide, by decide⟩
      · exact leads_digits ..
  | string t => exact ⟨octet '"', _, stringBytes_append t s, by decide, by decide⟩
  | array xs => exact ⟨octet '[', _, rfl, by decide, by decide⟩
  | object ms => exact ⟨octet '\x7b', _, rfl, by decide, by decide⟩

theorem skipSpace_of_leads {s : Bytes} (leads : Leads s) : skipSpace s = s := by
  obtain ⟨b, r, rfl, visible, -⟩ := leads
  simp [skipSpace, visible]

theorem length_bytes_pos {v : Json} (integral : v.Integral) : 0 < v.bytes.length := by
  obtain ⟨b, r, same, -⟩ := leads_bytes integral []
  rw [List.append_nil] at same
  rw [same]
  exact Nat.zero_lt_succ _

theorem nextKey_written (first : Bool) (key : String) (s : Bytes) :
    nextKey first (if first then stringBytes key ++ s else octet ',' :: (stringBytes key ++ s)) =
      .ok (some key, s) := by
  have keys : Scan.key (stringBytes key ++ s) = .ok (key, s) := by
    rw [stringBytes_append, Scan.key, skipSpace_of_leads ⟨_, _, rfl, by decide, by decide⟩]
    exact (if_pos rfl).trans (string_written key s)
  cases first with
  | true =>
    rw [if_pos rfl]
    rw [stringBytes_append] at keys ⊢
    unfold nextKey
    rw [skipSpace_of_leads ⟨_, _, rfl, by decide, by decide⟩]
    dsimp only
    rw [if_neg (by decide), if_pos rfl, keys]
    rfl
  | false =>
    rw [if_neg (by decide)]
    unfold nextKey
    rw [skipSpace_of_leads ⟨_, _, rfl, by decide, by decide⟩]
    dsimp only
    rw [if_neg (by decide), if_neg (by decide), if_pos rfl, keys]
    rfl

theorem nextKey_closed (first : Bool) (s : Bytes) :
    nextKey first (octet '\x7d' :: s) = .ok (none, octet '\x7d' :: s) := by
  cases first <;> rfl

theorem nextElement_closed (first : Bool) (s : Bytes) :
    nextElement first (octet ']' :: s) = .ok (false, octet ']' :: s) := by
  cases first <;> rfl

theorem nextElement_written (first : Bool) {s : Bytes} (leads : Leads s) :
    nextElement first (if first then s else octet ',' :: s) = .ok (true, s) := by
  obtain ⟨b, r, rfl, visible, other⟩ := leads
  have stays : skipSpace (b :: r) = b :: r := skipSpace_of_leads ⟨b, r, rfl, visible, other⟩
  cases first with
  | true =>
    rw [if_pos rfl]
    unfold nextElement
    rw [stays]
    dsimp only
    rw [if_neg other, if_pos rfl]
  | false =>
    rw [if_neg (by decide)]
    unfold nextElement
    rw [skipSpace_of_leads ⟨octet ',', _, rfl, by decide, by decide⟩]
    dsimp only
    rw [if_neg (by decide), if_neg (by decide), if_pos rfl, stays]
    exact if_neg other

def listing (first : Bool) (xs : List Json) : Bytes :=
  encode (if first then elementsChars xs else moreElementsChars xs)

def roster (first : Bool) (ms : List (String × Json)) : Bytes :=
  encode (if first then membersChars ms else moreMembersChars ms)

theorem bytes_array (xs : List Json) : (array xs).bytes = octet '[' :: listing true xs := rfl

theorem bytes_object (ms : List (String × Json)) :
    (object ms).bytes = octet '\x7b' :: roster true ms := rfl

theorem listing_nil (first : Bool) : listing first [] = [octet ']'] := by cases first <;> rfl

theorem roster_nil (first : Bool) : roster first [] = [octet '\x7d'] := by cases first <;> rfl

theorem listing_cons (first : Bool) (x : Json) (xs : List Json) (s : Bytes) :
    listing first (x :: xs) ++ s =
      if first then x.bytes ++ (listing false xs ++ s)
      else octet ',' :: (x.bytes ++ (listing false xs ++ s)) := by
  have comma : encodeChar ',' = [octet ','] := rfl
  cases first <;> simp [listing, elementsChars, moreElementsChars, bytes, encode, comma]

theorem roster_cons (first : Bool) (k : String) (x : Json) (ms : List (String × Json))
    (s : Bytes) : roster first ((k, x) :: ms) ++ s =
      if first then stringBytes k ++ octet ':' :: (x.bytes ++ (roster false ms ++ s))
      else octet ',' :: (stringBytes k ++ octet ':' :: (x.bytes ++ (roster false ms ++ s))) := by
  have comma : encodeChar ',' = [octet ','] := rfl
  have colon : encodeChar ':' = [octet ':'] := rfl
  cases first <;>
    simp [roster, membersChars, moreMembersChars, stringBytes, bytes, encode, comma, colon]

theorem length_listing_cons (first : Bool) (x : Json) (xs : List Json) :
    x.bytes.length + (listing false xs).length ≤ (listing first (x :: xs)).length := by
  have parts := congrArg List.length (listing_cons first x xs [])
  cases first <;> simp at parts <;> omega

theorem length_roster_cons (first : Bool) (k : String) (x : Json) (ms : List (String × Json)) :
    x.bytes.length + (roster false ms).length < (roster first ((k, x) :: ms)).length := by
  have parts := congrArg List.length (roster_cons first k x ms [])
  cases first <;> simp at parts <;> omega

theorem length_listing_pos (first : Bool) {xs : List Json} (integral : IntegralElements xs) :
    0 < (listing first xs).length := by
  cases xs with
  | nil => rw [listing_nil]; decide
  | cons x xs =>
    have shorter := length_listing_cons first x xs
    have positive := length_bytes_pos integral.1
    omega

theorem length_roster_pos (first : Bool) (ms : List (String × Json)) :
    0 < (roster first ms).length := by
  cases ms with
  | nil => rw [roster_nil]; decide
  | cons m ms =>
    exact Nat.zero_lt_of_lt (length_roster_cons first m.1 m.2 ms)

theorem stops_listing (xs : List Json) (s : Bytes) : Stops (listing false xs ++ s) := by
  cases xs with
  | nil => rw [listing_nil]; rintro b ⟨⟩; decide
  | cons x xs => rw [listing_cons]; rintro b ⟨⟩; decide

theorem stops_roster (ms : List (String × Json)) (s : Bytes) : Stops (roster false ms ++ s) := by
  cases ms with
  | nil => rw [roster_nil]; rintro b ⟨⟩; decide
  | cons m ms => rw [roster_cons]; rintro b ⟨⟩; decide

def Scalar (s : Bytes) (v : Json) (rest : Bytes) : Prop :=
  ∃ b r, s = b :: r ∧ isSpace b = false ∧ Skip.opening? b = none ∧
    readScalar (b :: r) = .ok (v, rest)

theorem scalar_natural {n : Nat} (word : n < wordLimit) {s : Bytes} (stops : Stops s) :
    Scalar ((digitChars n).map octet ++ s) (integer n) s := by
  obtain ⟨b, r, same, digit⟩ := digits_begin n
  have read := read_natural word stops
  rw [same, List.cons_append] at *
  refine ⟨b, r ++ s, rfl, isSpace_of_isDigit digit, ?_, ?_⟩
  · rw [Skip.opening?, if_neg (isDigit_ne digit (by decide)), if_neg (isDigit_ne digit (by decide))]
  · rw [readScalar, if_neg (isDigit_ne digit (by decide)), if_neg (isDigit_ne digit (by decide)),
      if_neg (isDigit_ne digit (by decide)), if_neg (isDigit_ne digit (by decide)), if_pos digit,
      read]
    rfl

theorem scalar_integer {n : Int} (least : -9223372036854775808 ≤ n)
    (most : n < 18446744073709551616) {s : Bytes}
    (stops : Stops s) : Scalar ((integer n).bytes ++ s) (integer n) s := by
  rw [bytes_integer]
  split
  · next negative =>
    have read := read_negative (n := n.natAbs) (by omega) (by simp only [wordLimit]; omega) stops
    rw [show -(n.natAbs : Int) = n by omega] at read
    refine ⟨octet '-', (digitChars n.natAbs).map octet ++ s, rfl, by decide, by decide, ?_⟩
    rw [readScalar, if_neg (by decide), if_neg (by decide), if_neg (by decide), if_pos rfl, read]
    rfl
  · next natural =>
    have magnitude : (n.natAbs : Int) = n := by omega
    have scalar := scalar_natural (n := n.natAbs) (by simp only [wordLimit]; omega) stops
    rwa [magnitude] at scalar

theorem scalar_string (t : String) (s : Bytes) : Scalar ((string t).bytes ++ s) (string t) s := by
  refine ⟨octet '"', _, stringBytes_append t s, by decide, by decide, ?_⟩
  rw [readScalar, if_neg (by decide), if_neg (by decide), if_neg (by decide), if_neg (by decide),
    if_neg (by decide), if_pos rfl, string_written]
  rfl

theorem readValue_scalar {s rest : Bytes} {v : Json} (scalar : Scalar s v rest) {fuel : Nat}
    (some : 0 < fuel) (room : Nat) : readValue fuel room s = .ok (v, rest) := by
  obtain ⟨b, r, rfl, visible, plain, read⟩ := scalar
  obtain ⟨fuel, rfl⟩ : ∃ k, fuel = k + 1 := ⟨fuel - 1, by omega⟩
  have stays : skipSpace (b :: r) = b :: r := by simp [skipSpace, visible]
  rw [readValue, stays]
  simp only [plain, read]

theorem elementsDepth_le {x : Json} {xs : List Json} {room : Nat} :
    elementsDepth (x :: xs) ≤ room ↔ x.depth ≤ room ∧ elementsDepth xs ≤ room := Nat.max_le

theorem membersDepth_le {k : String} {x : Json} {ms : List (String × Json)} {room : Nat} :
    membersDepth ((k, x) :: ms) ≤ room ↔ x.depth ≤ room ∧ membersDepth ms ≤ room := Nat.max_le

mutual

/-- A value is read back from its document where there is room for its nesting, and else the
document is refused. -/
theorem readValue_bytes {v : Json} (ordered : v.Ordered) (integral : v.Integral) (fuel : Nat)
    (enough : 2 * v.bytes.length ≤ fuel) (room : Nat) {s : Bytes} (stops : Stops s) :
    readValue fuel room (v.bytes ++ s) =
      if v.depth ≤ room then .ok (v, s) else .error .malformed := by
  have some : 0 < fuel := by
    have positive := length_bytes_pos integral
    omega
  match v with
  | null => exact readValue_scalar ⟨_, _, rfl, by decide, by decide, rfl⟩ some room
  | bool true => exact readValue_scalar ⟨_, _, rfl, by decide, by decide, rfl⟩ some room
  | bool false => exact readValue_scalar ⟨_, _, rfl, by decide, by decide, rfl⟩ some room
  | number (.integer n) =>
    exact readValue_scalar (scalar_integer integral.1 integral.2 stops) some room
  | string t => exact readValue_scalar (scalar_string t s) some room
  | array xs =>
    rw [bytes_array] at enough ⊢
    obtain ⟨fuel, rfl⟩ : ∃ k, fuel = k + 1 := ⟨fuel - 1, by omega⟩
    cases room with
    | zero => rfl
    | succ room =>
      have elements := readElements_listing ordered integral [] fuel
        (by simp only [List.isEmpty_nil, List.length_cons] at enough ⊢; omega) room s
      change (readElements fuel room [] (listing true xs ++ s) >>= _) = _
      rw [List.isEmpty_nil] at elements
      rw [elements]
      have inside : (array xs).depth ≤ room + 1 ↔ elementsDepth xs ≤ room := Nat.succ_le_succ_iff
      by_cases fits : elementsDepth xs ≤ room
      · rw [if_pos fits, if_pos (inside.2 fits)]
        rfl
      · rw [if_neg fits, if_neg (mt inside.1 fits)]
        rfl
  | object ms =>
    rw [bytes_object] at enough ⊢
    obtain ⟨fuel, rfl⟩ : ∃ k, fuel = k + 1 := ⟨fuel - 1, by omega⟩
    cases room with
    | zero => rfl
    | succ room =>
      have members := readMembers_roster ordered.2 integral true [] ordered.1 fuel
        (by simp only [List.length_cons] at enough; omega) room s
      change (readMembers fuel room true [] (roster true ms ++ s) >>= _) = _
      rw [members]
      have inside : (object ms).depth ≤ room + 1 ↔ membersDepth ms ≤ room := Nat.succ_le_succ_iff
      by_cases fits : membersDepth ms ≤ room
      · rw [if_pos fits, if_pos (inside.2 fits)]
        rfl
      · rw [if_neg fits, if_neg (mt inside.1 fits)]
        rfl

theorem readElements_listing {xs : List Json} (ordered : OrderedElements xs)
    (integral : IntegralElements xs) (done : List Json) (fuel : Nat)
    (enough : 2 * (listing done.isEmpty xs).length ≤ fuel) (room : Nat) (s : Bytes) :
    readElements fuel room done (listing done.isEmpty xs ++ s) =
      if elementsDepth xs ≤ room then .ok (done.reverse ++ xs, octet ']' :: s)
      else .error .malformed := by
  obtain ⟨fuel, rfl⟩ : ∃ k, fuel = k + 1 := ⟨fuel - 1, by
    have positive := length_listing_pos done.isEmpty integral
    omega⟩
  match xs with
  | [] =>
    have closed := nextElement_closed done.isEmpty s
    rw [listing_nil, List.singleton_append, readElements, closed, elementsDepth,
      if_pos (Nat.zero_le room)]
    simp [bind, Except.bind, pure, Except.pure]
  | x :: xs =>
    have next := nextElement_written done.isEmpty
      (leads_bytes integral.1 (listing false xs ++ s))
    have octets := length_listing_cons done.isEmpty x xs
    have some := length_bytes_pos integral.1
    have more := length_listing_pos false integral.2
    have first := readValue_bytes ordered.1 integral.1 fuel (by omega) room
      (stops_listing xs s)
    have rest := readElements_listing ordered.2 integral.2 (x :: done) fuel
      (by simp only [List.isEmpty_cons]; omega) room s
    rw [listing_cons, readElements, next]
    change (readValue fuel room (x.bytes ++ (listing false xs ++ s)) >>= _) = _
    rw [first]
    by_cases fits : x.depth ≤ room
    · rw [if_pos fits]
      refine rest.trans ?_
      simp [elementsDepth_le, fits]
    · rw [if_neg fits, if_neg fun whole => fits (elementsDepth_le.1 whole).1]
      rfl

theorem readMembers_roster {ms : List (String × Json)} (ordered : OrderedMembers ms)
    (integral : IntegralMembers ms) (first : Bool) (done : Members Json)
    (ascending : Members.Ascending (done ++ ms)) (fuel : Nat)
    (enough : 2 * (roster first ms).length ≤ fuel) (room : Nat) (s : Bytes) :
    readMembers fuel room first done (roster first ms ++ s) =
      if membersDepth ms ≤ room then .ok (done ++ ms, octet '\x7d' :: s)
      else .error .malformed := by
  obtain ⟨fuel, rfl⟩ : ∃ k, fuel = k + 1 := ⟨fuel - 1, by
    have positive := length_roster_pos first ms
    omega⟩
  match ms with
  | [] =>
    have closed := nextKey_closed first s
    rw [roster_nil, List.singleton_append, readMembers, closed, membersDepth,
      if_pos (Nat.zero_le room)]
    simp [bind, Except.bind, pure, Except.pure]
  | (k, x) :: ms =>
    have next := nextKey_written first k (octet ':' :: (x.bytes ++ (roster false ms ++ s)))
    have octets := length_roster_cons first k x ms
    have value := readValue_bytes ordered.1 integral.1 fuel (by omega) room
      (stops_roster ms s)
    have last : ∀ key ∈ done.keys, key < k := by
      rw [Members.Ascending, Members.keys, List.map_append] at ascending
      exact fun key mem => (List.pairwise_append.1 ascending).2.2 key mem k (by simp)
    have put : done.insert k x ++ ms = done ++ (k, x) :: ms := by
      rw [Members.insert_of_lt last, List.append_assoc]
      rfl
    have rest := readMembers_roster ordered.2 integral.2 false (done.insert k x)
      (by rwa [put]) fuel (by omega) room s
    rw [roster_cons, readMembers, next]
    change (readValue fuel room (x.bytes ++ (roster false ms ++ s)) >>= _) = _
    rw [value]
    by_cases fits : x.depth ≤ room
    · rw [if_pos fits]
      refine rest.trans ?_
      simp [membersDepth_le, fits, put]
    · rw [if_neg fits, if_neg fun whole => fits (membersDepth_le.1 whole).1]
      rfl

end

end Json

end Lifecycle
