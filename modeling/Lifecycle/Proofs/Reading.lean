import Lifecycle.Proofs.Passing
import Lifecycle.Json.Reader

/-! Reading a value. Main statement: what is read from octets is what the outline that they spell
means, where it means something and there is room for its nesting; so blanks do not matter. -/

namespace Lifecycle

open Scan Numeral

namespace Outline

mutual

/-- What an outline means when so many arrays and objects may open. -/
def value? : Nat → Outline → Option Json
  | _, scalar octets =>
    match Json.readScalar octets with
    | .ok (v, []) => some v
    | _ => none
  | 0, array _ => none
  | 0, object _ => none
  | room + 1, array xs => (elements? room xs).map Json.array
  | room + 1, object ms => (members? room [] ms).map Json.object

def elements? : Nat → List Outline → Option (List Json)
  | _, [] => some []
  | room, x :: xs => do
    let v ← value? room x
    let vs ← elements? room xs
    return v :: vs

def members? : Nat → Members Json → List (Bytes × Outline) → Option (Members Json)
  | _, done, [] => some done
  | room, done, (k, x) :: ms => do
    let key ← text? k
    let v ← value? room x
    members? room (done.insert key v) ms

end

theorem value?_scalar {room : Nat} {octets : Bytes} {v : Json} :
    (scalar octets).value? room = some v ↔ Json.readScalar octets = .ok (v, []) := by
  unfold value?
  split
  · next v' read => simp [read]
  · next other => exact ⟨nofun, fun read => absurd read (other v)⟩

theorem elements?_cons {room : Nat} {x : Outline} {xs : List Outline} {vs : List Json} :
    elements? room (x :: xs) = some vs ↔
      ∃ v ws, x.value? room = some v ∧ elements? room xs = some ws ∧ vs = v :: ws := by
  simp [elements?, Option.bind_eq_some_iff, @eq_comm _ vs]

theorem members?_cons {room : Nat} {done m : Members Json} {k : Bytes} {x : Outline}
    {ms : List (Bytes × Outline)} :
    members? room done ((k, x) :: ms) = some m ↔ ∃ key v, text? k = some key ∧
      x.value? room = some v ∧ members? room (done.insert key v) ms = some m := by
  simp [members?, Option.bind_eq_some_iff]

end Outline

open Outline

namespace Scan

theorem key_eq_ok_iff {s rest : Bytes} {key : String} :
    Scan.key s = .ok (key, rest) ↔
      ∃ k, skipSpace s = octet '"' :: (k ++ octet '"' :: rest) ∧ text? k = some key := by
  rw [Scan.key]
  cases begins : skipSpace s with
  | nil => simp
  | cons b r =>
    by_cases quote : b = octet '"'
    · simp [quote, string_eq_ok_iff]
    · simp [quote]

theorem key_skipSpace (s : Bytes) : Scan.key (skipSpace s) = Scan.key s := by
  rw [Scan.key, skipSpace_idem, Scan.key]

theorem nextKey_brace {s r : Bytes} (closed : skipSpace s = octet '\x7d' :: r) (first : Bool) :
    nextKey first s = .ok (none, octet '\x7d' :: r) := by
  rw [nextKey, closed]
  exact if_pos rfl

theorem nextKey_led {first : Bool} {s r rest : Bytes} {key : String} (led : Led first s r)
    (taken : Scan.key r = .ok (key, rest)) : nextKey first s = .ok (some key, rest) := by
  obtain ⟨k, begins, -⟩ := key_eq_ok_iff.1 taken
  cases first with
  | true =>
    obtain rfl : s = r := led
    rw [← key_skipSpace, begins] at taken
    rw [nextKey, begins]
    dsimp only
    rw [if_neg (by decide), if_pos rfl, taken]
    rfl
  | false =>
    rw [nextKey, show skipSpace s = octet ',' :: r from led]
    dsimp only
    rw [if_neg (by decide), if_neg (by decide), if_pos rfl, taken]
    rfl

theorem nextKey_cases {first : Bool} {s rest : Bytes} {found : Option String}
    (next : nextKey first s = .ok (found, rest)) :
    (∃ r, skipSpace s = octet '\x7d' :: r ∧ found = none ∧ rest = octet '\x7d' :: r) ∨
      ∃ r key, Led first s r ∧ Scan.key r = .ok (key, rest) ∧ found = some key := by
  unfold nextKey at next
  cases begins : skipSpace s with
  | nil =>
    rw [begins] at next
    cases next
  | cons b r =>
    simp only [begins] at next
    by_cases closed : b = octet '\x7d'
    · rw [if_pos closed] at next
      cases next
      exact .inl ⟨r, by rw [closed], rfl, by rw [closed]⟩
    rw [if_neg closed] at next
    cases first with
    | true =>
      rw [if_pos rfl, ← begins, key_skipSpace] at next
      obtain ⟨⟨key, q⟩, taken, last⟩ := Except.of_bind next
      cases last
      exact .inr ⟨s, key, rfl, taken, rfl⟩
    | false =>
      rw [if_neg (by decide)] at next
      by_cases comma : b = octet ','
      · rw [if_pos comma] at next
        obtain ⟨⟨key, q⟩, taken, last⟩ := Except.of_bind next
        cases last
        exact .inr ⟨r, key, by rw [Led, begins, comma], taken, rfl⟩
      · rw [if_neg comma] at next
        cases next

theorem nextElement_bracket {s r : Bytes} (closed : skipSpace s = octet ']' :: r) (first : Bool) :
    nextElement first s = .ok (false, octet ']' :: r) := by
  rw [nextElement, closed]
  exact if_pos rfl

theorem nextElement_led {first : Bool} {s r q : Bytes} {b : UInt8} (led : Led first s r)
    (begins : skipSpace r = b :: q) (other : b ≠ octet ']') :
    nextElement first s = .ok (true, skipSpace r) := by
  cases first with
  | true =>
    obtain rfl : s = r := led
    rw [nextElement, begins]
    dsimp only
    rw [if_neg other, if_pos rfl]
  | false =>
    rw [nextElement, show skipSpace s = octet ',' :: r from led]
    dsimp only
    rw [if_neg (by decide), if_neg (by decide), if_pos rfl, begins]
    exact if_neg other

theorem nextElement_cases {first more : Bool} {s rest : Bytes}
    (next : nextElement first s = .ok (more, rest)) :
    (∃ r, skipSpace s = octet ']' :: r ∧ more = false ∧ rest = octet ']' :: r) ∨
      ∃ r, Led first s r ∧ rest = skipSpace r ∧ more = true := by
  unfold nextElement at next
  cases begins : skipSpace s with
  | nil =>
    rw [begins] at next
    cases next
  | cons b r =>
    simp only [begins] at next
    by_cases closed : b = octet ']'
    · rw [if_pos closed] at next
      cases next
      exact .inl ⟨r, by rw [closed], rfl, by rw [closed]⟩
    rw [if_neg closed] at next
    cases first with
    | true =>
      rw [if_pos rfl] at next
      cases next
      exact .inr ⟨s, rfl, begins.symm, rfl⟩
    | false =>
      rw [if_neg (by decide)] at next
      by_cases comma : b = octet ','
      · rw [if_pos comma] at next
        cases behind : skipSpace r with
        | nil =>
          rw [behind] at next
          cases next
        | cons c q =>
          simp only [behind] at next
          by_cases closed' : c = octet ']'
          · rw [if_pos closed'] at next
            cases next
          · rw [if_neg closed'] at next
            cases next
            exact .inr ⟨r, by rw [Led, begins, comma], behind.symm, rfl⟩
      · rw [if_neg comma] at next
        cases next

end Scan

theorem spellsKey_of_read {r s rest : Bytes} {key : String} (taken : Scan.key r = .ok (key, s))
    (colon : Scan.colon s = .ok rest) : ∃ k, SpellsKey k r rest ∧ text? k = some key := by
  obtain ⟨k, begins, text⟩ := key_eq_ok_iff.1 taken
  exact ⟨k, ⟨inside_of_text? text, s, begins, mark_eq_ok_iff.1 colon⟩, text⟩

theorem read_of_spellsKey {k r rest : Bytes} {key : String} (spells : SpellsKey k r rest)
    (text : text? k = some key) :
    ∃ s, Scan.key r = .ok (key, s) ∧ Scan.colon s = .ok rest := by
  obtain ⟨-, s, begins, colon⟩ := spells
  exact ⟨s, key_eq_ok_iff.2 ⟨k, begins, text⟩, mark_eq_ok_iff.2 colon⟩

namespace Json

theorem spells_of_read (fuel : Nat) :
    (∀ room s v rest, readValue fuel room s = .ok (v, rest) →
      ∃ x : Outline, x.Spells s rest ∧ x.value? room = some v) ∧
    (∀ room done s vs s', readElements fuel room done s = .ok (vs, s') →
      ∃ xs ws rest, SpellsElements done.isEmpty xs s rest ∧ s' = octet ']' :: rest ∧
        elements? room xs = some ws ∧ vs = done.reverse ++ ws) ∧
    ∀ room first done s m s', readMembers fuel room first done s = .ok (m, s') →
      ∃ ms rest, SpellsMembers first ms s rest ∧ s' = octet '\x7d' :: rest ∧
        members? room done ms = some m := by
  -- The three readers call each other with one unit of fuel less, so they go together.
  induction fuel with
  | zero => exact ⟨nofun, nofun, nofun⟩
  | succ fuel ih =>
    obtain ⟨values, elements, members⟩ := ih
    refine ⟨fun room s v rest whole => ?_, fun room done s vs s' whole => ?_,
      fun room first done s m s' whole => ?_⟩
    · rw [readValue] at whole
      cases begins : skipSpace s with
      | nil =>
        rw [begins] at whole
        cases whole
      | cons b r =>
        rw [begins] at whole
        cases opens : Skip.opening? b with
        | none =>
          simp only [opens] at whole
          obtain ⟨c, p, same, reads⟩ := readScalar_local whole
          obtain ⟨means, passed⟩ := reads [] stops_nil
          rw [List.append_nil] at means passed
          exact ⟨.scalar (c :: p), ⟨passed, begins.trans same⟩, value?_scalar.2 means⟩
        | some bracket =>
          cases room with
          | zero =>
            simp only [opens] at whole
            cases whole
          | succ room =>
            cases bracket with
            | square =>
              simp only [opens] at whole
              obtain ⟨⟨vs, s'⟩, inside, further⟩ := Except.of_bind whole
              obtain ⟨q, closed, last⟩ := Except.of_bind further
              cases last
              obtain ⟨xs, ws, t, spells, rfl, means, rfl⟩ := elements _ _ _ _ _ inside
              obtain ⟨-, rfl⟩ := List.cons.inj (mark_eq_ok_iff.1 closed)
              refine ⟨.array xs, ⟨r, begins.trans ?_, spells⟩, ?_⟩
              · rw [Skip.square_of_opening opens]
              · rw [value?, means]
                rfl
            | curly =>
              simp only [opens] at whole
              obtain ⟨⟨m, s'⟩, inside, further⟩ := Except.of_bind whole
              obtain ⟨q, closed, last⟩ := Except.of_bind further
              cases last
              obtain ⟨ms, t, spells, rfl, means⟩ := members _ _ _ _ _ _ inside
              obtain ⟨-, rfl⟩ := List.cons.inj (mark_eq_ok_iff.1 closed)
              refine ⟨.object ms, ⟨r, begins.trans ?_, spells⟩, ?_⟩
              · rw [Skip.curly_of_opening opens]
              · rw [value?, means]
                rfl
    · rw [readElements] at whole
      obtain ⟨⟨more, r⟩, next, further⟩ := Except.of_bind whole
      rcases nextElement_cases next with ⟨q, closed, rfl, rfl⟩ | ⟨q, led, rfl, rfl⟩
      · cases further
        exact ⟨[], [], q, closed, rfl, rfl, (List.append_nil _).symm⟩
      · obtain ⟨⟨v, t⟩, first, last⟩ := Except.of_bind further
        obtain ⟨x, spells, means⟩ := values _ _ _ _ first
        obtain ⟨xs, ws, rest, spells', rfl, means', rfl⟩ := elements _ _ _ _ _ last
        exact ⟨x :: xs, v :: ws, rest, ⟨q, t, led, spells_skipSpace.1 spells, spells'⟩, rfl,
          elements?_cons.2 ⟨v, ws, means, means', rfl⟩, by simp⟩
    · rw [readMembers] at whole
      obtain ⟨⟨found, r⟩, next, further⟩ := Except.of_bind whole
      rcases nextKey_cases next with ⟨q, closed, rfl, rfl⟩ | ⟨q, key, led, taken, rfl⟩
      · cases further
        exact ⟨[], q, closed, rfl, rfl⟩
      · obtain ⟨u, colon, further⟩ := Except.of_bind further
        obtain ⟨⟨v, t⟩, value, last⟩ := Except.of_bind further
        obtain ⟨k, spelled, text⟩ := spellsKey_of_read taken colon
        obtain ⟨x, spells, means⟩ := values _ _ _ _ value
        obtain ⟨ms, rest, spells', rfl, means'⟩ := members _ _ _ _ _ _ last
        exact ⟨(k, x) :: ms, rest, ⟨q, u, t, led, spelled, spells, spells'⟩, rfl,
          members?_cons.2 ⟨key, v, text, means, means'⟩⟩

theorem readScalar_append {octets t : Bytes} {v : Json} (whole : readScalar octets = .ok (v, []))
    (stops : Stops t) : readScalar (octets ++ t) = .ok (v, t) := by
  obtain ⟨b, p, rfl, reads⟩ := readScalar_local whole
  rw [List.append_nil]
  exact (reads t stops).1

theorem readValue_skipSpace (fuel room : Nat) (s : Bytes) :
    readValue fuel room (skipSpace s) = readValue fuel room s := by
  cases fuel with
  | zero => rfl
  | succ fuel => rw [readValue, readValue, skipSpace_idem]

mutual

theorem readValue_of_spells {x : Outline} {s rest : Bytes} (spells : x.Spells s rest)
    (stops : Stops rest) {room : Nat} {v : Json} (means : x.value? room = some v) (fuel : Nat)
    (enough : 2 * s.length ≤ fuel) : readValue fuel room s = .ok (v, rest) := by
  have shorter := spells.length_lt
  obtain ⟨fuel, rfl⟩ : ∃ n, fuel = n + 1 := ⟨fuel - 1, by omega⟩
  match x, room, spells with
  | .scalar octets, room, ⟨whole, begins⟩ =>
    obtain ⟨b, p, rfl, plain, -⟩ := scalar_begins whole
    have taken := readScalar_append (value?_scalar.1 means) stops
    rw [List.cons_append] at taken
    rw [readValue, begins]
    simp only [List.cons_append, plain.2, taken]
  | .array xs, room + 1, ⟨r, begins, elements⟩ =>
    obtain ⟨vs, values, rfl⟩ := Option.map_eq_some_iff.1 means
    have fewer := length_of_skipSpace begins
    have inside := readElements_of_spells [] elements values fuel (by omega)
    rw [readValue, begins]
    have closed : closeArray (octet ']' :: rest) = .ok rest := rfl
    simp only [Skip.opening?_square, bind, Except.bind, inside, closed]
    rfl
  | .object ms, room + 1, ⟨r, begins, members⟩ =>
    obtain ⟨m, values, rfl⟩ := Option.map_eq_some_iff.1 means
    have fewer := length_of_skipSpace begins
    have inside := readMembers_of_spells members values fuel (by omega)
    rw [readValue, begins]
    have closed : closeObject (octet '\x7d' :: rest) = .ok rest := rfl
    simp only [Skip.opening?_curly, bind, Except.bind, inside, closed]
    rfl

theorem readElements_of_spells (done : List Json) {xs : List Outline} {s rest : Bytes}
    (spells : SpellsElements done.isEmpty xs s rest) {room : Nat} {vs : List Json}
    (means : elements? room xs = some vs) (fuel : Nat) (enough : 2 * s.length < fuel) :
    readElements fuel room done s = .ok (done.reverse ++ vs, octet ']' :: rest) := by
  obtain ⟨fuel, rfl⟩ : ∃ n, fuel = n + 1 := ⟨fuel - 1, by omega⟩
  match xs, spells with
  | [], closed =>
    cases means
    rw [readElements, nextElement_bracket closed]
    simp [bind, Except.bind, pure, Except.pure]
  | x :: xs, ⟨r, t, led, first, more⟩ =>
    obtain ⟨v, ws, value, rest', rfl⟩ := elements?_cons.1 means
    obtain ⟨b, q, begins, other⟩ := first.begins
    have one := led.length_le
    have two := first.length_lt
    have three := elements_length_lt more
    have taken := readValue_of_spells first (stops_elements more) value fuel (by omega)
    have further := readElements_of_spells (v :: done) more rest' fuel (by omega)
    rw [readElements, nextElement_led led begins other]
    change (readValue fuel room (skipSpace r) >>= _) = _
    rw [readValue_skipSpace, taken]
    exact further.trans (by simp)

theorem readMembers_of_spells {first : Bool} {done m : Members Json}
    {ms : List (Bytes × Outline)} {s rest : Bytes} (spells : SpellsMembers first ms s rest)
    {room : Nat} (means : members? room done ms = some m) (fuel : Nat)
    (enough : 2 * s.length < fuel) :
    readMembers fuel room first done s = .ok (m, octet '\x7d' :: rest) := by
  obtain ⟨fuel, rfl⟩ : ∃ n, fuel = n + 1 := ⟨fuel - 1, by omega⟩
  match ms, spells with
  | [], closed =>
    cases means
    rw [readMembers, nextKey_brace closed]
    rfl
  | (k, x) :: ms, ⟨r, q, t, led, spelled, value, more⟩ =>
    obtain ⟨key, v, text, means, means'⟩ := members?_cons.1 means
    obtain ⟨u, taken, colon⟩ := read_of_spellsKey spelled text
    have one := led.length_le
    have two := spelled.length_lt
    have three := value.length_lt
    have read := readValue_of_spells value (stops_members more) means fuel (by omega)
    have further := readMembers_of_spells more means' fuel (by omega)
    rw [readMembers, nextKey_led led taken]
    change (Scan.colon u >>= _) = _
    rw [colon]
    change (readValue fuel room q >>= _) = _
    rw [read]
    exact further

end

end Json

end Lifecycle
