import Lifecycle.Proofs.Waiting

/-! Values that break off. Main statements: a beginning of a spelling holds all of it, or is torn
in one of its tokens or between two of them; reading a value that is torn finds the input ended, if
its numbers are integers that 64 bits hold; and so does passing over it, but for a tear behind the
sign of a number. -/

namespace Lifecycle

open Scan Numeral

namespace Scan

theorem skipSpace_append {p : Bytes} (some : skipSpace p ≠ []) (q : Bytes) :
    skipSpace (p ++ q) = skipSpace p ++ q := by
  rw [skipSpace, List.dropWhile_append, if_neg (by simpa [skipSpace] using some)]
  rfl

theorem mark_cut {p q s : Bytes} {b : UInt8} (begins : skipSpace (p ++ q) = b :: s) :
    skipSpace p = [] ∨ ∃ r, s = r ++ q ∧ skipSpace p = b :: r := by
  by_cases blank : skipSpace p = []
  · exact .inl blank
  · rw [skipSpace_append blank] at begins
    cases first : skipSpace p with
    | nil => exact absurd first blank
    | cons c r =>
      rw [first] at begins
      obtain ⟨rfl, rfl⟩ := List.cons.inj begins
      exact .inr ⟨r, rfl, rfl⟩

theorem token_cut {p q t s : Bytes} (begins : skipSpace (p ++ q) = t ++ s) :
    skipSpace p = [] ∨ (∃ r, s = r ++ q ∧ skipSpace p = t ++ r) ∨
      ∃ d, d ≠ [] ∧ t = skipSpace p ++ d := by
  by_cases blank : skipSpace p = []
  · exact .inl blank
  · rw [skipSpace_append blank] at begins
    obtain ⟨d, same, rfl⟩ | ⟨r, same, rfl⟩ := List.append_eq_append_iff.1 begins
    · by_cases none : d = []
      · subst none
        exact .inr (.inl ⟨[], rfl, by rw [same, List.append_nil, List.append_nil]⟩)
      · exact .inr (.inr ⟨d, none, same⟩)
    · exact .inr (.inl ⟨r, rfl, same⟩)

end Scan

namespace Outline

def TornKey (token k p : Bytes) : Prop :=
  Inside k ∧
    ((∃ d, d ≠ [] ∧ octet '"' :: (k ++ [octet '"']) = token ++ d ∧ skipSpace p = token) ∨
      token = [] ∧ ∃ r, skipSpace p = octet '"' :: (k ++ octet '"' :: r) ∧ skipSpace r = [])

mutual

/-- The octets begin to spell a value and break off before its end: in a token, of which so much
stands there, or between two tokens, and then nothing does. -/
def Torn (token : Bytes) : Outline → Bytes → Prop
  | scalar octets, p => Skip.scalar octets = .ok [] ∧
    ∃ d, d ≠ [] ∧ octets = token ++ d ∧ skipSpace p = token
  | array xs, p => token = [] ∧ skipSpace p = [] ∨
    ∃ r, skipSpace p = octet '[' :: r ∧ TornElements token true xs r
  | object ms, p => token = [] ∧ skipSpace p = [] ∨
    ∃ r, skipSpace p = octet '\x7b' :: r ∧ TornMembers token true ms r

def TornElements (token : Bytes) : Bool → List Outline → Bytes → Prop
  | _, [], p => token = [] ∧ skipSpace p = []
  | first, x :: xs, p => token = [] ∧ skipSpace p = [] ∨ ∃ r, Led first p r ∧
    (Torn token x r ∨ ∃ t, Spells x r t ∧ TornElements token false xs t)

def TornMembers (token : Bytes) : Bool → List (Bytes × Outline) → Bytes → Prop
  | _, [], p => token = [] ∧ skipSpace p = []
  | first, (k, x) :: ms, p => token = [] ∧ skipSpace p = [] ∨ ∃ r, Led first p r ∧
    (TornKey token k r ∨ ∃ t, SpellsKey k r t ∧
      (Torn token x t ∨ ∃ u, Spells x t u ∧ TornMembers token false ms u))

end

mutual

def OfIntegers : Outline → Prop
  | scalar octets => Json.IntegerIfNumber octets
  | array xs => OfIntegersElements xs
  | object ms => OfIntegersMembers ms

def OfIntegersElements : List Outline → Prop
  | [] => True
  | x :: xs => OfIntegers x ∧ OfIntegersElements xs

def OfIntegersMembers : List (Bytes × Outline) → Prop
  | [] => True
  | (_, x) :: ms => OfIntegers x ∧ OfIntegersMembers ms

end

theorem led_cut {first : Bool} {p q s : Bytes} (led : Led first (p ++ q) s) :
    skipSpace p = [] ∨ ∃ r, s = r ++ q ∧ Led first p r := by
  cases first with
  | true => exact .inr ⟨p, Eq.symm led, rfl⟩
  | false => exact mark_cut led

theorem key_cut {k p q s : Bytes} (spells : SpellsKey k (p ++ q) s) :
    (∃ r, s = r ++ q ∧ SpellsKey k p r) ∨ ∃ token, TornKey token k p := by
  obtain ⟨inside, r, begins, colon⟩ := spells
  have quoted (t : Bytes) : octet '"' :: (k ++ octet '"' :: t) =
      octet '"' :: (k ++ [octet '"']) ++ t := by simp
  rw [quoted] at begins
  obtain blank | ⟨r', rfl, whole⟩ | ⟨d, missing, same⟩ := token_cut begins
  · exact .inr ⟨[], inside, .inl ⟨_, List.cons_ne_nil _ _, rfl, blank⟩⟩
  · rw [← quoted] at whole
    obtain blank | ⟨s', rfl, last⟩ := mark_cut colon
    · exact .inr ⟨[], inside, .inr ⟨rfl, r', whole, blank⟩⟩
    · exact .inl ⟨s', rfl, inside, r', whole, last⟩
  · exact .inr ⟨_, inside, .inl ⟨d, missing, same, rfl⟩⟩

mutual

theorem Spells.cut {x : Outline} {p q s : Bytes} (spells : x.Spells (p ++ q) s) :
    (∃ r, s = r ++ q ∧ x.Spells p r) ∨ ∃ token, Torn token x p := by
  match x, spells with
  | scalar octets, ⟨whole, begins⟩ =>
    obtain ⟨b, c, rfl, -⟩ := scalar_begins whole
    obtain blank | ⟨r, rfl, first⟩ | ⟨d, missing, same⟩ := token_cut begins
    · exact .inr ⟨[], whole, _, List.cons_ne_nil b c, rfl, blank⟩
    · exact .inl ⟨r, rfl, whole, first⟩
    · exact .inr ⟨_, whole, d, missing, same, rfl⟩
  | array xs, ⟨r, begins, elements⟩ =>
    obtain blank | ⟨r', rfl, opened⟩ := mark_cut begins
    · exact .inr ⟨[], .inl ⟨rfl, blank⟩⟩
    obtain ⟨s', rfl, whole⟩ | ⟨token, torn⟩ := elements_cut elements
    · exact .inl ⟨s', rfl, r', opened, whole⟩
    · exact .inr ⟨token, .inr ⟨r', opened, torn⟩⟩
  | object ms, ⟨r, begins, members⟩ =>
    obtain blank | ⟨r', rfl, opened⟩ := mark_cut begins
    · exact .inr ⟨[], .inl ⟨rfl, blank⟩⟩
    obtain ⟨s', rfl, whole⟩ | ⟨token, torn⟩ := members_cut members
    · exact .inl ⟨s', rfl, r', opened, whole⟩
    · exact .inr ⟨token, .inr ⟨r', opened, torn⟩⟩

theorem elements_cut {first : Bool} {xs : List Outline} {p q s : Bytes}
    (spells : SpellsElements first xs (p ++ q) s) :
    (∃ r, s = r ++ q ∧ SpellsElements first xs p r) ∨ ∃ token, TornElements token first xs p := by
  match xs, spells with
  | [], closed =>
    obtain blank | ⟨r, rfl, closing⟩ := mark_cut closed
    · exact .inr ⟨[], rfl, blank⟩
    · exact .inl ⟨r, rfl, closing⟩
  | x :: xs, ⟨r, t, led, value, more⟩ =>
    obtain blank | ⟨r', rfl, led'⟩ := led_cut led
    · exact .inr ⟨[], .inl ⟨rfl, blank⟩⟩
    obtain ⟨t', rfl, value'⟩ | ⟨token, torn⟩ := Spells.cut value
    · obtain ⟨s', rfl, more'⟩ | ⟨token, torn⟩ := elements_cut more
      · exact .inl ⟨s', rfl, r', t', led', value', more'⟩
      · exact .inr ⟨token, .inr ⟨r', led', .inr ⟨t', value', torn⟩⟩⟩
    · exact .inr ⟨token, .inr ⟨r', led', .inl torn⟩⟩

theorem members_cut {first : Bool} {ms : List (Bytes × Outline)} {p q s : Bytes}
    (spells : SpellsMembers first ms (p ++ q) s) :
    (∃ r, s = r ++ q ∧ SpellsMembers first ms p r) ∨ ∃ token, TornMembers token first ms p := by
  match ms, spells with
  | [], closed =>
    obtain blank | ⟨r, rfl, closing⟩ := mark_cut closed
    · exact .inr ⟨[], rfl, blank⟩
    · exact .inl ⟨r, rfl, closing⟩
  | (k, x) :: ms, ⟨r, u, t, led, key, value, more⟩ =>
    obtain blank | ⟨r', rfl, led'⟩ := led_cut led
    · exact .inr ⟨[], .inl ⟨rfl, blank⟩⟩
    obtain ⟨u', rfl, key'⟩ | ⟨token, torn⟩ := key_cut key
    · obtain ⟨t', rfl, value'⟩ | ⟨token, torn⟩ := Spells.cut value
      · obtain ⟨s', rfl, more'⟩ | ⟨token, torn⟩ := members_cut more
        · exact .inl ⟨s', rfl, r', u', t', led', key', value', more'⟩
        · exact .inr ⟨token, .inr ⟨r', led', .inr ⟨u', key', .inr ⟨t', value', torn⟩⟩⟩⟩
      · exact .inr ⟨token, .inr ⟨r', led', .inr ⟨u', key', .inl torn⟩⟩⟩
    · exact .inr ⟨token, .inr ⟨r', led', .inl torn⟩⟩

end

theorem Torn.begins {token : Bytes} {x : Outline} {p : Bytes} (torn : Torn token x p) :
    token = [] ∧ skipSpace p = [] ∨ ∃ b r, skipSpace p = b :: r ∧ b ≠ octet ']' := by
  cases x with
  | scalar octets =>
    obtain ⟨whole, d, -, same, begins⟩ := torn
    obtain ⟨b, c, rfl, -, other, -⟩ := scalar_begins whole
    cases token with
    | nil => exact .inl ⟨rfl, begins⟩
    | cons b' token =>
      obtain ⟨rfl, -⟩ := List.cons.inj same
      exact .inr ⟨b, token, begins, other⟩
  | array xs => exact torn.imp_right fun ⟨r, begins, _⟩ => ⟨_, r, begins, by decide⟩
  | object ms => exact torn.imp_right fun ⟨r, begins, _⟩ => ⟨_, r, begins, by decide⟩

theorem torn_skipSpace {token : Bytes} {x : Outline} {p : Bytes} :
    Torn token x (skipSpace p) ↔ Torn token x p := by
  cases x <;> simp only [Torn, skipSpace_idem]

theorem TornKey.begins {token k p : Bytes} (torn : TornKey token k p) :
    token = [] ∧ skipSpace p = [] ∨ ∃ r, skipSpace p = octet '"' :: r := by
  obtain ⟨-, ⟨d, -, same, begins⟩ | ⟨-, r, begins, -⟩⟩ := torn
  · cases token with
    | nil => exact .inl ⟨rfl, begins⟩
    | cons b c =>
      obtain ⟨rfl, -⟩ := List.cons.inj same
      exact .inr ⟨c, begins⟩
  · exact .inr ⟨_, begins⟩

theorem stops_blank_rest {p : Bytes} (blank : skipSpace p = []) : Stops p :=
  stops_of_skipSpace blank stops_nil

theorem stops_comma {p r : Bytes} (led : Led false p r) : Stops p :=
  stops_of_skipSpace led (by rintro b ⟨⟩; decide)

theorem stops_torn_elements {token : Bytes} {xs : List Outline} {p : Bytes}
    (torn : TornElements token false xs p) : Stops p := by
  cases xs with
  | nil => exact stops_blank_rest torn.2
  | cons x xs =>
    obtain ⟨-, blank⟩ | ⟨_, comma, -⟩ := torn
    · exact stops_blank_rest blank
    · exact stops_comma comma

theorem stops_torn_members {token : Bytes} {ms : List (Bytes × Outline)} {p : Bytes}
    (torn : TornMembers token false ms p) : Stops p := by
  cases ms with
  | nil => exact stops_blank_rest torn.2
  | cons m ms =>
    obtain ⟨-, blank⟩ | ⟨_, comma, -⟩ := torn
    · exact stops_blank_rest blank
    · exact stops_comma comma

end Outline

namespace Scan

open Outline

theorem mark_blank {p : Bytes} (blank : skipSpace p = []) (b : UInt8) :
    mark b p = .error .ended := by
  rw [mark, blank]
  rfl

theorem key_blank {p : Bytes} (blank : skipSpace p = []) : Scan.key p = .error .ended := by
  rw [Scan.key, blank]

theorem nextKey_blank {p : Bytes} (blank : skipSpace p = []) (first : Bool) :
    nextKey first p = .error .ended := by
  rw [nextKey, blank]

theorem nextElement_blank {p : Bytes} (blank : skipSpace p = []) (first : Bool) :
    nextElement first p = .error .ended := by
  rw [nextElement, blank]

theorem nextElement_short {first : Bool} {p r : Bytes} (led : Led first p r)
    (blank : skipSpace r = []) : nextElement first p = .error .ended := by
  cases first with
  | true =>
    obtain rfl : p = r := led
    exact nextElement_blank blank true
  | false =>
    rw [nextElement, show skipSpace p = octet ',' :: r from led]
    dsimp only
    rw [if_neg (by decide), if_neg (by decide), if_pos rfl, blank]

theorem nextKey_short {first : Bool} {p r : Bytes} (led : Led first p r)
    (short : Scan.key r = .error .ended) : nextKey first p = .error .ended := by
  cases first with
  | true =>
    obtain rfl : p = r := led
    cases begins : skipSpace p with
    | nil => exact nextKey_blank begins true
    | cons b r =>
      rw [← key_skipSpace, begins] at short
      rw [nextKey, begins]
      dsimp only
      by_cases closed : b = octet '\x7d'
      · subst closed
        cases short
      · rw [if_neg closed, if_pos rfl, short]
        rfl
  | false =>
    rw [nextKey, show skipSpace p = octet ',' :: r from led]
    dsimp only
    rw [if_neg (by decide), if_neg (by decide), if_pos rfl, short]
    rfl

theorem key_torn {token k p : Bytes} {key : String} (text : text? k = some key)
    (torn : TornKey token k p) :
    Scan.key p = .error .ended ∨
      ∃ r, Scan.key p = .ok (key, r) ∧ Scan.colon r = .error .ended := by
  obtain ⟨-, ⟨d, missing, same, begins⟩ | ⟨-, r, begins, blank⟩⟩ := torn
  · cases token with
    | nil => exact .inl (key_blank begins)
    | cons b c =>
      obtain ⟨rfl, rest⟩ := List.cons.inj same
      have whole := text?_eq_some_iff.1 text
      rw [rest] at whole
      rw [Scan.key, begins]
      exact .inl ((if_pos rfl).trans (string_short whole missing))
  · exact .inr ⟨r, key_eq_ok_iff.2 ⟨k, begins, text⟩, mark_blank blank _⟩

end Scan

namespace Json

open Outline

theorem readElements_blank {p : Bytes} (blank : skipSpace p = []) (fuel room : Nat)
    (done : List Json) : readElements fuel room done p = .error .ended := by
  cases fuel with
  | zero => rfl
  | succ fuel =>
    rw [readElements, nextElement_blank blank]
    rfl

theorem readMembers_blank {p : Bytes} (blank : skipSpace p = []) (fuel room : Nat) (first : Bool)
    (done : Members Json) : readMembers fuel room first done p = .error .ended := by
  cases fuel with
  | zero => rfl
  | succ fuel =>
    rw [readMembers, nextKey_blank blank]
    rfl

mutual

theorem readValue_torn {token : Bytes} {x : Outline} {p : Bytes} (torn : Torn token x p)
    (integers : x.OfIntegers) {room : Nat} {v : Json} (means : x.value? room = some v) (fuel : Nat)
    (enough : 2 * p.length ≤ fuel) : Unfinished (readValue fuel room p) := by
  match fuel, x, room, torn with
  | 0, _, _, _ => exact .inl rfl
  | fuel + 1, .scalar octets, room, ⟨whole, d, missing, same, begins⟩ =>
    rw [readValue, begins]
    cases token with
    | nil => exact .inl rfl
    | cons b c =>
      obtain ⟨b', c', rfl, plain, -⟩ := scalar_begins whole
      obtain ⟨rfl, rfl⟩ := List.cons.inj same
      simp only [plain.2]
      exact readScalar_torn (value?_scalar.1 means) missing integers
  | fuel + 1, .array xs, room + 1, torn =>
    obtain ⟨vs, values, rfl⟩ := Option.map_eq_some_iff.1 means
    obtain ⟨-, blank⟩ | ⟨r, begins, inside⟩ := torn
    · rw [readValue, blank]
      exact .inl rfl
    · have fewer := length_of_skipSpace begins
      have ended := readElements_torn [] inside integers values fuel (by omega)
      rw [readValue, begins]
      simp only [Skip.opening?_square, bind, Except.bind, ended]
      exact .inl rfl
  | fuel + 1, .object ms, room + 1, torn =>
    obtain ⟨m, values, rfl⟩ := Option.map_eq_some_iff.1 means
    obtain ⟨-, blank⟩ | ⟨r, begins, inside⟩ := torn
    · rw [readValue, blank]
      exact .inl rfl
    · have fewer := length_of_skipSpace begins
      have ended := readMembers_torn inside integers values fuel (by omega)
      rw [readValue, begins]
      simp only [Skip.opening?_curly, bind, Except.bind, ended]
      exact .inl rfl

theorem readElements_torn {token : Bytes} (done : List Json) {xs : List Outline} {p : Bytes}
    (torn : TornElements token done.isEmpty xs p) (integers : OfIntegersElements xs) {room : Nat}
    {vs : List Json} (means : elements? room xs = some vs) (fuel : Nat)
    (enough : 2 * p.length < fuel) : readElements fuel room done p = .error .ended := by
  match xs, torn with
  | [], ⟨_, blank⟩ => exact readElements_blank blank fuel room done
  | x :: xs, .inl ⟨_, blank⟩ => exact readElements_blank blank fuel room done
  | x :: xs, .inr ⟨r, led, inside⟩ =>
    obtain ⟨v, ws, value, rest', rfl⟩ := elements?_cons.1 means
    obtain ⟨fuel, rfl⟩ : ∃ n, fuel = n + 1 := ⟨fuel - 1, by omega⟩
    have one := led.length_le
    rcases inside with broken | ⟨t, first, more⟩
    · obtain ⟨-, blank⟩ | ⟨b, q, begins, other⟩ := broken.begins
      · rw [readElements, nextElement_short led blank]
        rfl
      · have unfinished := readValue_torn broken integers.1 value fuel (by omega)
        rw [readElements, nextElement_led led begins other]
        change (readValue fuel room (skipSpace r) >>= _) = _
        rw [readValue_skipSpace]
        exact unfinished.bind fun v => readElements_blank rfl fuel room (v :: done)
    · obtain ⟨b, q, begins, other⟩ := first.begins
      have two := first.length_lt
      have taken := readValue_of_spells first (stops_torn_elements more) value fuel (by omega)
      have further := readElements_torn (v :: done) more integers.2 rest' fuel (by omega)
      rw [readElements, nextElement_led led begins other]
      change (readValue fuel room (skipSpace r) >>= _) = _
      rw [readValue_skipSpace, taken]
      exact further

theorem readMembers_torn {token : Bytes} {first : Bool} {done m : Members Json}
    {ms : List (Bytes × Outline)} {p : Bytes} (torn : TornMembers token first ms p)
    (integers : OfIntegersMembers ms) {room : Nat} (means : members? room done ms = some m)
    (fuel : Nat) (enough : 2 * p.length < fuel) :
    readMembers fuel room first done p = .error .ended := by
  match ms, torn with
  | [], ⟨_, blank⟩ => exact readMembers_blank blank fuel room first done
  | (k, x) :: ms, .inl ⟨_, blank⟩ => exact readMembers_blank blank fuel room first done
  | (k, x) :: ms, .inr ⟨r, led, inside⟩ =>
    obtain ⟨key, v, text, means, means'⟩ := members?_cons.1 means
    obtain ⟨fuel, rfl⟩ : ∃ n, fuel = n + 1 := ⟨fuel - 1, by omega⟩
    have one := led.length_le
    rcases inside with broken | ⟨t, spelled, inside⟩
    · obtain short | ⟨u, taken, colon⟩ := key_torn text broken
      · rw [readMembers, nextKey_short led short]
        rfl
      · rw [readMembers, nextKey_led led taken]
        change (Scan.colon u >>= _) = _
        rw [colon]
        rfl
    · obtain ⟨u, taken, colon⟩ := read_of_spellsKey spelled text
      have two := spelled.length_lt
      rw [readMembers, nextKey_led led taken]
      change (Scan.colon u >>= _) = _
      rw [colon]
      change (readValue fuel room t >>= _) = _
      rcases inside with broken | ⟨w, value, more⟩
      · have unfinished := readValue_torn broken integers.1 means fuel (by omega)
        exact unfinished.bind fun v => readMembers_blank rfl fuel room false (done.insert key v)
      · have three := value.length_lt
        have read := readValue_of_spells value (stops_torn_members more) means fuel (by omega)
        rw [read]
        exact readMembers_torn more integers.2 means' fuel (by omega)

end

end Json

namespace Skip

open Outline Json

theorem after_blank {p : Bytes} (blank : skipSpace p = []) (fuel : Nat) (bracket : Bracket)
    (around : List Bracket) : after fuel (bracket :: around) p = .error .ended := by
  cases fuel with
  | zero => rfl
  | succ fuel => rw [after, blank]

theorem value_blank {p : Bytes} (blank : skipSpace p = []) (fuel : Nat) (around : List Bracket) :
    value fuel around p = .error .ended := by
  cases fuel with
  | zero => rfl
  | succ fuel => rw [value, blank]

theorem value_opened_blank {p r : Bytes} {b : UInt8} {bracket : Bracket}
    (opens : opening? b = some bracket) (begins : skipSpace p = b :: r)
    (blank : skipSpace r = []) (fuel : Nat) (around : List Bracket) :
    value fuel around p = .error .ended := by
  cases fuel with
  | zero => rfl
  | succ fuel =>
    rw [value, begins]
    simp only [opens, blank]

theorem key_torn {token k p : Bytes} (torn : TornKey token k p) :
    key p = .error .ended ∧ faultBehind token = .ended := by
  obtain ⟨inside, ⟨d, missing, same, begins⟩ | ⟨rfl, r, begins, blank⟩⟩ := torn
  · cases token with
    | nil =>
      rw [key, mark_blank begins]
      exact ⟨rfl, rfl⟩
    | cons b c =>
      obtain ⟨rfl, rest⟩ := List.cons.inj same
      have quote : mark (octet '"') p = .ok c := mark_eq_ok_iff.2 begins
      have whole : skipString (c ++ d) = .ok [] := (congrArg skipString rest).symm.trans inside
      rw [key, quote]
      simp only [bind, Except.bind, skipString_short whole missing, true_and]
      exact if_neg fun same => absurd (List.cons.inj same).1 (by decide)
  · have quote : mark (octet '"') p = .ok (k ++ octet '"' :: r) := mark_eq_ok_iff.2 begins
    have string : skipString (k ++ octet '"' :: r) = .ok r :=
      skipString_eq_ok_iff.2 ⟨k, rfl, inside⟩
    have colon : Scan.colon r = .error .ended := mark_blank blank _
    rw [key, quote]
    simp only [bind, Except.bind, string, colon, true_and]
    rfl

theorem key_skipSpace (p : Bytes) : key (skipSpace p) = key p := by
  rw [key, mark, skipSpace_idem, key, mark]

/-- What becomes of passing over a value that breaks off: it fails, or a number ended just there
and what stands around it fails. -/
def Fails (token : Bytes) (outcome behind : Except Fault Bytes) : Prop :=
  outcome = .error (faultBehind token) ∨ faultBehind token = .ended ∧ outcome = behind

theorem Fails.inside {token : Bytes} {outcome : Except Fault Bytes} {fuel : Nat}
    {bracket : Bracket} {around : List Bracket}
    (fails : Fails token outcome (after fuel (bracket :: around) [])) :
    outcome = .error (faultBehind token) := by
  obtain same | ⟨ended, same⟩ := fails
  · exact same
  · rw [same, ended, after_blank rfl]

mutual

theorem value_torn {token : Bytes} {x : Outline} {p : Bytes} (torn : Torn token x p)
    (integers : x.OfIntegers) : ∃ steps, steps ≤ p.length + 1 ∧ ∀ fuel around,
      Fails token (value (fuel + steps) around p) (after fuel around []) := by
  match x, torn with
  | .scalar octets, ⟨whole, d, missing, same, begins⟩ =>
    obtain ⟨b, c, rfl, plain, -⟩ := scalar_begins whole
    refine ⟨1, by omega, fun fuel around => ?_⟩
    cases token with
    | nil => exact .inl (value_blank begins _ _)
    | cons b' c' =>
      obtain ⟨rfl, rfl⟩ := List.cons.inj same
      rw [value, begins]
      simp only [plain.2]
      obtain failed | ⟨passed, ended⟩ := skipScalar_torn whole missing integers
      · rw [failed]
        exact .inl rfl
      · rw [passed]
        exact .inr ⟨ended, rfl⟩
  | .array xs, .inl ⟨absent, blank⟩ | .object ms, .inl ⟨absent, blank⟩ =>
    subst absent
    exact ⟨0, Nat.zero_le _, fun fuel around => .inl (value_blank blank _ _)⟩
  | .array xs, .inr ⟨r, begins, inside⟩ =>
    obtain ⟨n, few, fails⟩ := square_torn inside integers
    have shorter := length_of_skipSpace begins
    refine ⟨n + 1, by omega, fun fuel around => .inl ?_⟩
    rw [← Nat.add_assoc]
    exact fails begins fuel around
  | .object ms, .inr ⟨r, begins, inside⟩ =>
    obtain ⟨n, few, fails⟩ := curly_torn inside integers
    have shorter := length_of_skipSpace begins
    refine ⟨n + 1, by omega, fun fuel around => .inl ?_⟩
    rw [← Nat.add_assoc]
    exact fails begins fuel around

theorem square_torn {token : Bytes} {xs : List Outline} {r : Bytes}
    (torn : TornElements token true xs r) (integers : OfIntegersElements xs) :
    ∃ steps, steps ≤ r.length + 1 ∧ ∀ {p}, skipSpace p = octet '[' :: r → ∀ fuel around,
      value (fuel + steps + 1) around p = .error (faultBehind token) := by
  match xs, torn with
  | [], ⟨absent, blank⟩ | _ :: _, .inl ⟨absent, blank⟩ =>
    subst absent
    exact ⟨0, Nat.zero_le _, fun begins fuel around =>
      value_opened_blank opening?_square begins blank _ _⟩
  | x :: xs, .inr ⟨_, led, inside⟩ =>
    obtain rfl : r = _ := led
    rcases inside with broken | ⟨t, first, more⟩
    · obtain ⟨rfl, blank⟩ | ⟨c, inner, opened, other⟩ := broken.begins
      · exact ⟨0, Nat.zero_le _, fun begins fuel around =>
          value_opened_blank opening?_square begins blank _ _⟩
      · obtain ⟨n, few, fails⟩ := value_torn broken integers.1
        have other : c ≠ Bracket.square.closing := other
        refine ⟨n, by omega, fun begins fuel around => ?_⟩
        rw [value_opened opening?_square begins opened, if_neg other, ← opened]
        exact (value_skipSpace ..).trans (fails fuel (.square :: around)).inside
    · obtain ⟨n, few, passes⟩ := value_of_spells first (stops_torn_elements more)
      obtain ⟨m, fewer, fails⟩ := after_elements_torn more integers.2
      obtain ⟨c, inner, opened, other⟩ := first.begins
      have other : c ≠ Bracket.square.closing := other
      refine ⟨m + n, by omega, fun begins fuel around => ?_⟩
      rw [value_opened opening?_square begins opened, if_neg other, ← opened, ← Nat.add_assoc]
      exact (value_skipSpace ..).trans ((passes _ _).trans (fails fuel around))

theorem after_elements_torn {token : Bytes} {xs : List Outline} {p : Bytes}
    (torn : TornElements token false xs p) (integers : OfIntegersElements xs) :
    ∃ steps, steps ≤ p.length + 1 ∧ ∀ fuel around,
      after (fuel + steps) (.square :: around) p = .error (faultBehind token) := by
  match xs, torn with
  | [], ⟨absent, blank⟩ | _ :: _, .inl ⟨absent, blank⟩ =>
    subst absent
    exact ⟨0, Nat.zero_le _, fun fuel around => after_blank blank _ _ _⟩
  | x :: xs, .inr ⟨r, comma, inside⟩ =>
    have shorter := length_of_skipSpace comma
    rcases inside with broken | ⟨t, first, more⟩
    · obtain ⟨n, few, fails⟩ := value_torn broken integers.1
      refine ⟨n + 1, by omega, fun fuel around => ?_⟩
      rw [← Nat.add_assoc, after_comma comma]
      exact (fails fuel (.square :: around)).inside
    · obtain ⟨n, few, passes⟩ := value_of_spells first (stops_torn_elements more)
      obtain ⟨m, fewer, fails⟩ := after_elements_torn more integers.2
      refine ⟨m + n + 1, by omega, fun fuel around => ?_⟩
      rw [← Nat.add_assoc, after_comma comma, ← Nat.add_assoc]
      exact (passes _ _).trans (fails fuel around)

theorem curly_torn {token : Bytes} {ms : List (Bytes × Outline)} {r : Bytes}
    (torn : TornMembers token true ms r) (integers : OfIntegersMembers ms) :
    ∃ steps, steps ≤ r.length + 1 ∧ ∀ {p}, skipSpace p = octet '\x7b' :: r → ∀ fuel around,
      value (fuel + steps + 1) around p = .error (faultBehind token) := by
  match ms, torn with
  | [], ⟨absent, blank⟩ | _ :: _, .inl ⟨absent, blank⟩ =>
    subst absent
    exact ⟨0, Nat.zero_le _, fun begins fuel around =>
      value_opened_blank opening?_curly begins blank _ _⟩
  | (k, x) :: ms, .inr ⟨_, led, inside⟩ =>
    obtain rfl : r = _ := led
    rcases inside with broken | ⟨t, spelled, inside⟩
    · obtain ⟨rfl, blank⟩ | ⟨inner, opened⟩ := broken.begins
      · exact ⟨0, Nat.zero_le _, fun begins fuel around =>
          value_opened_blank opening?_curly begins blank _ _⟩
      · obtain ⟨failed, ended⟩ := key_torn broken
        refine ⟨0, Nat.zero_le _, fun begins fuel around => ?_⟩
        rw [value_opened opening?_curly begins opened, if_neg (by decide), ← opened, lead,
          key_skipSpace, failed, ended]
        rfl
    · obtain ⟨-, _, opened, -⟩ := id spelled
      have leads : lead .curly (skipSpace r) = .ok t :=
        key_eq_ok_iff.2 ⟨k, spellsKey_skipSpace.2 spelled⟩
      have shorter := spelled.length_lt
      rcases inside with broken | ⟨u, first, more⟩
      · obtain ⟨n, few, fails⟩ := value_torn broken integers.1
        refine ⟨n, by omega, fun begins fuel around => ?_⟩
        rw [value_opened opening?_curly begins opened, if_neg (by decide), ← opened, leads]
        exact (fails fuel (.curly :: around)).inside
      · obtain ⟨n, few, passes⟩ := value_of_spells first (stops_torn_members more)
        obtain ⟨m, fewer, fails⟩ := after_members_torn more integers.2
        refine ⟨m + n, by omega, fun begins fuel around => ?_⟩
        rw [value_opened opening?_curly begins opened, if_neg (by decide), ← opened, leads,
          ← Nat.add_assoc]
        exact (passes _ _).trans (fails fuel around)

theorem after_members_torn {token : Bytes} {ms : List (Bytes × Outline)} {p : Bytes}
    (torn : TornMembers token false ms p) (integers : OfIntegersMembers ms) :
    ∃ steps, steps ≤ p.length + 1 ∧ ∀ fuel around,
      after (fuel + steps) (.curly :: around) p = .error (faultBehind token) := by
  match ms, torn with
  | [], ⟨absent, blank⟩ | _ :: _, .inl ⟨absent, blank⟩ =>
    subst absent
    exact ⟨0, Nat.zero_le _, fun fuel around => after_blank blank _ _ _⟩
  | (k, x) :: ms, .inr ⟨r, comma, inside⟩ =>
    have one := length_of_skipSpace comma
    rcases inside with broken | ⟨t, spelled, inside⟩
    · obtain ⟨failed, ended⟩ := key_torn broken
      refine ⟨1, by omega, fun fuel around => ?_⟩
      rw [after_comma comma, lead, failed, ended]
      rfl
    · have leads : lead .curly r = .ok t := key_eq_ok_iff.2 ⟨k, spelled⟩
      have two := spelled.length_lt
      rcases inside with broken | ⟨u, first, more⟩
      · obtain ⟨n, few, fails⟩ := value_torn broken integers.1
        refine ⟨n + 1, by omega, fun fuel around => ?_⟩
        rw [← Nat.add_assoc, after_comma comma, leads]
        exact (fails fuel (.curly :: around)).inside
      · obtain ⟨n, few, passes⟩ := value_of_spells first (stops_torn_members more)
        obtain ⟨m, fewer, fails⟩ := after_members_torn more integers.2
        refine ⟨m + n + 1, by omega, fun fuel around => ?_⟩
        rw [← Nat.add_assoc, after_comma comma, ← Nat.add_assoc, leads]
        exact (passes _ _).trans (fails fuel around)

end

end Skip

theorem Json.skip_torn {token : Bytes} {x : Outline} {p : Bytes} (torn : x.Torn token p)
    (integers : x.OfIntegers) : Skip.Fails token (skip p) (.ok []) := by
  obtain ⟨steps, few, fails⟩ := Skip.value_torn torn integers
  obtain ⟨fuel, more⟩ : ∃ fuel, p.length + 1 = fuel + steps := ⟨p.length + 1 - steps, by omega⟩
  have whole := fails fuel []
  rwa [← more, Skip.after] at whole

end Lifecycle
