import Lifecycle.Proofs.Reading

/-! Reading a record. Main statement: if what its fields make of a value depends on the outline of
the value only, then what the record makes of a document depends on the outline of that only, in
object form as in array form. -/

namespace Lifecycle

open Scan Numeral Outline

variable {α β : Type}

theorem Json.readScalar_quote {s rest : Bytes} {t : String} (read : Scan.string s = .ok (t, rest)) :
    readScalar (octet '"' :: s) = .ok (string t, rest) := by
  change (Scan.string s >>= _) = _
  rw [read]
  rfl

theorem Json.string_of_readScalar {s rest : Bytes} {t : String}
    (read : readScalar s = .ok (string t, rest)) :
    ∃ r, s = octet '"' :: r ∧ Scan.string r = .ok (t, rest) := by
  cases s with
  | nil => cases read
  | cons b s =>
    rcases scalar_cases b with rfl | rfl | rfl | rfl | digit | rfl | other
    · obtain ⟨s', -, last⟩ := Except.of_bind (x := word restOfNull s) read
      cases last
    · obtain ⟨s', -, last⟩ := Except.of_bind (x := word restOfTrue s) read
      cases last
    · obtain ⟨s', -, last⟩ := Except.of_bind (x := word restOfFalse s) read
      cases last
    · obtain ⟨s', -, last⟩ := Except.of_bind (x := Numeral.read true s) read
      cases last
    · rw [readScalar_digit digit] at read
      obtain ⟨s', -, last⟩ := Except.of_bind read
      cases last
    · obtain ⟨⟨t', s'⟩, taken, last⟩ := Except.of_bind (x := Scan.string s) read
      cases last
      exact ⟨s, rfl, taken⟩
    · rw [other.2] at read
      cases read

theorem Outline.scalar_of_string {x : Outline} {room : Nat} {t : String}
    (means : x.value? room = some (.string t)) :
    ∃ octets, x = .scalar octets ∧ Json.readScalar octets = .ok (.string t, []) := by
  cases x with
  | scalar octets => exact ⟨octets, rfl, value?_scalar.1 means⟩
  | array xs =>
    cases room with
    | zero => cases means
    | succ room =>
      obtain ⟨vs, -, same⟩ := Option.map_eq_some_iff.1 means
      cases same
  | object ms =>
    cases room with
    | zero => cases means
    | succ room =>
      obtain ⟨m, -, same⟩ := Option.map_eq_some_iff.1 means
      cases same

namespace Reader

/-- What a reader makes of a value that stands alone, in some spelling of it. -/
def Means (r : Reader β) (room : Nat) (x : Outline) (b : β) : Prop :=
  ∃ s, x.Spells s [] ∧ r room s = .ok (b, [])

/-- What is read, and whether it is, depends on the outline of the value only. -/
structure Steady (r : Reader β) (room : Nat) : Prop where
  spelled {s b rest} : r room s = .ok (b, rest) → ∃ x : Outline, x.Spells s rest ∧ r.Means room x b
  taken {x s b rest} : x.Spells s rest → Stops rest → r.Means room x b →
    r room s = .ok (b, rest)

theorem Steady.functional {r : Reader β} {room : Nat} (steady : r.Steady room) {x : Outline}
    {b b' : β} (one : r.Means room x b) (two : r.Means room x b') : b = b' := by
  obtain ⟨s, spells, whole⟩ := one
  have same := whole.symm.trans (steady.taken spells stops_nil two)
  exact congrArg Prod.fst (Except.ok.inj same)

/-- A reader is steady if what it makes of a value can be told from the outline in any way, and
then it makes just that of it. -/
theorem Steady.of {r : Reader β} {room : Nat} {means : Outline → β → Prop}
    (spelled : ∀ {s b rest}, r room s = .ok (b, rest) →
      ∃ x : Outline, x.Spells s rest ∧ means x b)
    (taken : ∀ {x s b rest}, Outline.Spells x s rest → Stops rest → means x b →
      r room s = .ok (b, rest)) :
    r.Steady room ∧ ∀ {x b}, x.Whole → (r.Means room x b ↔ means x b) := by
  have told {x : Outline} {b : β} (meaning : r.Means room x b) : means x b := by
    obtain ⟨s, spells, whole⟩ := meaning
    obtain ⟨y, spells', told⟩ := spelled whole
    rwa [(spells.unique spells' stops_nil stops_nil).1]
  have means_of {x : Outline} {b : β} (whole : x.Whole) (means : means x b) :
      r.Means room x b := by
    obtain ⟨s, rest, spells⟩ := whole
    have alone : x.Spells (x.spaced [] ++ []) [] := spells.spaced (by simp) []
    exact ⟨_, alone, taken alone stops_nil means⟩
  refine ⟨⟨fun whole => ?_, fun spells stops meaning => taken spells stops (told meaning)⟩,
    fun whole => ⟨told, means_of whole⟩⟩
  obtain ⟨x, spells, means⟩ := spelled whole
  exact ⟨x, spells, means_of ⟨_, _, spells⟩ means⟩

theorem value_means (room : Nat) : Steady value room ∧
    ∀ {x v}, x.Whole → (Means value room x v ↔ x.value? room = some v) :=
  Steady.of ((Json.spells_of_read _).1 _ _ _ _) fun spells stops means =>
    Json.readValue_of_spells spells stops means _ (by simp [Json.fuelFor])

theorem wrongType_ne_ok (expected : String) (s : Bytes) (b : β) :
    wrongType expected s ≠ .ok b := by
  intro whole
  obtain ⟨found, -, thrown⟩ := Except.of_bind whole
  cases thrown

theorem spells_quoted {s r rest : Bytes} {t : String} (begins : skipSpace s = octet '"' :: r)
    (read : Scan.string r = .ok (t, rest)) :
    ∃ x : Outline, x.Spells s rest ∧ ∀ room, x.value? room = some (.string t) := by
  obtain ⟨k, rfl, text⟩ := string_eq_ok_iff.1 read
  refine ⟨.scalar (octet '"' :: (k ++ [octet '"'])), ⟨inside_of_text? text, ?_⟩,
    fun _ => value?_scalar.2 (Json.readScalar_quote (text?_eq_some_iff.1 text))⟩
  rw [begins]
  simp

theorem quoted_of_spells {x : Outline} {s rest : Bytes} (spells : x.Spells s rest) {room : Nat}
    {t : String} (means : x.value? room = some (.string t)) :
    ∃ r, skipSpace s = octet '"' :: r ∧ Scan.string r = .ok (t, rest) := by
  obtain ⟨octets, rfl, scalar⟩ := scalar_of_string means
  obtain ⟨r, rfl, taken⟩ := Json.string_of_readScalar scalar
  obtain ⟨k, rfl, text⟩ := string_eq_ok_iff.1 taken
  exact ⟨k ++ [octet '"'] ++ rest, spells.2, string_eq_ok_iff.2 ⟨k, by simp, text⟩⟩

theorem string_means (room : Nat) : Steady string room ∧
    ∀ {x t}, x.Whole → (Means string room x t ↔ x.value? room = some (.string t)) := by
  refine Steady.of (fun {s t rest} whole => ?_) (fun {x s t rest} spells stops means => ?_)
  · unfold string at whole
    cases begins : skipSpace s with
    | nil =>
      rw [begins] at whole
      cases whole
    | cons b r =>
      simp only [begins] at whole
      by_cases quote : b = octet '"'
      · rw [if_pos quote] at whole
        obtain ⟨x, spells, means⟩ := spells_quoted (begins.trans (by rw [quote])) whole
        exact ⟨x, spells, means room⟩
      · rw [if_neg quote] at whole
        exact absurd whole (wrongType_ne_ok _ _ _)
  · obtain ⟨r, begins, taken⟩ := quoted_of_spells spells means
    rw [string, begins]
    exact (if_pos rfl).trans taken

end Reader

namespace Record

theorem field_eq_ok_iff {name : String} {r : Reader β} {set : β → α → α} {presence : Presence}
    {room : Nat} {s rest : Bytes} {g : α → α} :
    (field name r set presence).read room s = .ok (g, rest) ↔
      ∃ b, r room s = .ok (b, rest) ∧ g = set b := by
  constructor
  · intro whole
    obtain ⟨⟨b, s'⟩, taken, last⟩ := Except.of_bind whole
    cases last
    exact ⟨b, taken, rfl⟩
  · rintro ⟨b, taken, rfl⟩
    change (r room s >>= _) = _
    rw [taken]
    rfl

theorem means_field {name : String} {r : Reader β} {set : β → α → α} {presence : Presence}
    {room : Nat} {x : Outline} {g : α → α} :
    Reader.Means (field name r set presence).read room x g ↔
      ∃ b, r.Means room x b ∧ g = set b := by
  simp only [Reader.Means, field_eq_ok_iff]
  constructor
  · rintro ⟨s, spells, b, taken, same⟩
    exact ⟨b, ⟨s, spells, taken⟩, same⟩
  · rintro ⟨b, ⟨s, spells, taken⟩, same⟩
    exact ⟨s, spells, b, taken, same⟩

theorem steady_field {name : String} {r : Reader β} {set : β → α → α} {presence : Presence}
    {room : Nat} (steady : r.Steady room) :
    Reader.Steady (field name r set presence).read room where
  spelled whole := by
    obtain ⟨b, taken, same⟩ := field_eq_ok_iff.1 whole
    obtain ⟨x, spells, means⟩ := steady.spelled taken
    exact ⟨x, spells, means_field.2 ⟨b, means, same⟩⟩
  taken spells stops means := by
    obtain ⟨b, means, same⟩ := means_field.1 means
    exact field_eq_ok_iff.2 ⟨b, steady.taken spells stops means, same⟩

/-- What comes of the members of an object, when the fields whose names are given have been seen
and the others are to be put into the draft. -/
inductive Takes (r : Record α) (room : Nat) :
    List String → α → List (Bytes × Outline) → α → Prop
  | done {seen draft} (complete : r.missing? seen = none) : Takes r room seen draft [] draft
  | field {seen draft k key x f set ms made} (text : text? k = some key)
      (known : r.fields.find? (·.name == key) = some f) (fresh : key ∉ seen)
      (means : Reader.Means f.read room x set)
      (more : Takes r room (key :: seen) (set draft) ms made) :
      Takes r room seen draft ((k, x) :: ms) made
  | other {seen draft k key x ms made} (text : text? k = some key)
      (unknown : r.fields.find? (·.name == key) = none) (open' : r.closed = false)
      (more : Takes r room seen draft ms made) : Takes r room seen draft ((k, x) :: ms) made

theorem takes_of_read {r : Record α} {room : Nat}
    (steady : ∀ f ∈ r.fields, Reader.Steady f.read room) {fuel : Nat} {first : Bool}
    {seen : List String} {draft made : α} {s s' : Bytes}
    (whole : r.readMembers room fuel first seen draft s = .ok (made, s')) :
    ∃ ms rest, SpellsMembers first ms s rest ∧ s' = octet '\x7d' :: rest ∧
      r.Takes room seen draft ms made := by
  induction fuel generalizing first seen draft s with
  | zero => cases whole
  | succ fuel ih =>
    rw [readMembers] at whole
    obtain ⟨⟨found, q⟩, next, further⟩ := Except.of_bind whole
    rcases nextKey_cases next with ⟨u, closed, rfl, rfl⟩ | ⟨u, key, led, taken, rfl⟩
    · cases complete : r.missing? seen with
      | some name =>
        simp only [complete] at further
        cases further
      | none =>
        simp only [complete] at further
        cases further
        exact ⟨[], u, closed, rfl, .done complete⟩
    · cases known : r.fields.find? (·.name == key) with
      | some f =>
        simp only [known] at further
        by_cases fresh : seen.contains key = true
        · rw [if_pos fresh] at further
          cases further
        rw [if_neg fresh] at further
        obtain ⟨v, colon, further⟩ := Except.of_bind further
        obtain ⟨⟨set, t⟩, value, last⟩ := Except.of_bind further
        obtain ⟨k, spelled, text⟩ := spellsKey_of_read taken colon
        obtain ⟨x, spells, means⟩ := (steady f (List.mem_of_find?_eq_some known)).spelled value
        obtain ⟨ms, rest, more, same, takes⟩ := ih last
        exact ⟨(k, x) :: ms, rest, ⟨u, v, t, led, spelled, spells, more⟩, same,
          .field text known (by simpa using fresh) means takes⟩
      | none =>
        simp only [known] at further
        cases closed : r.closed with
        | true =>
          rw [closed, if_pos rfl] at further
          cases further
        | false =>
          rw [closed, if_neg (by decide)] at further
          obtain ⟨v, colon, further⟩ := Except.of_bind further
          obtain ⟨t, passed, last⟩ := Except.of_bind further
          obtain ⟨k, spelled, text⟩ := spellsKey_of_read taken colon
          obtain ⟨x, spells⟩ := Json.spells_of_skip passed
          obtain ⟨ms, rest, more, same, takes⟩ := ih last
          exact ⟨(k, x) :: ms, rest, ⟨u, v, t, led, spelled, spells, more⟩, same,
            .other text known closed takes⟩

section

variable {r : Record α} {room fuel : Nat} {first : Bool} {seen : List String} {draft : α}
  {s q t u k : Bytes} {key : String} {x : Outline} (led : Led first s q)
  (spelled : SpellsKey k q t) (text : text? k = some key)

include led spelled

theorem length_of_member (value : x.Spells t u) : u.length < s.length := by
  have one := led.length_le
  have two := spelled.length_lt
  have three := value.length_lt
  omega

include text

theorem readMembers_taken {f : Field α} (known : r.fields.find? (·.name == key) = some f)
    (fresh : key ∉ seen) : r.readMembers room (fuel + 1) first seen draft s =
      f.read room t >>= fun (set, u) =>
        r.readMembers room fuel false (key :: seen) (set draft) u := by
  obtain ⟨v, taken, colon⟩ := read_of_spellsKey spelled text
  rw [readMembers, nextKey_led led taken]
  simp only [bind, Except.bind, known, List.contains_eq_mem, fresh, decide_false,
    Bool.false_eq_true, if_false, colon]

theorem readMembers_passed (unknown : r.fields.find? (·.name == key) = none)
    (open' : r.closed = false) : r.readMembers room (fuel + 1) first seen draft s =
      Json.skip t >>= r.readMembers room fuel false seen draft := by
  obtain ⟨v, taken, colon⟩ := read_of_spellsKey spelled text
  rw [readMembers, nextKey_led led taken]
  simp only [bind, Except.bind, unknown, open', Bool.false_eq_true, if_false, colon]

theorem readMembers_known {f : Field α} (known : r.fields.find? (·.name == key) = some f)
    (fresh : key ∉ seen) (steady : f.read.Steady room) {set : α → α}
    (means : Reader.Means f.read room x set) (value : x.Spells t u) (stops : Stops u) :
    r.readMembers room (fuel + 1) first seen draft s =
      r.readMembers room fuel false (key :: seen) (set draft) u := by
  rw [readMembers_taken led spelled text known fresh, steady.taken value stops means]
  rfl

theorem readMembers_unknown (unknown : r.fields.find? (·.name == key) = none)
    (open' : r.closed = false) (value : x.Spells t u) (stops : Stops u) :
    r.readMembers room (fuel + 1) first seen draft s =
      r.readMembers room fuel false seen draft u := by
  rw [readMembers_passed led spelled text unknown open', Json.skip_of_spells value stops]
  rfl

end

theorem read_of_takes {r : Record α} {room : Nat}
    (steady : ∀ f ∈ r.fields, Reader.Steady f.read room) {seen : List String} {draft made : α}
    {ms : List (Bytes × Outline)} (takes : r.Takes room seen draft ms made) {first : Bool}
    {s rest : Bytes} (spells : SpellsMembers first ms s rest) {fuel : Nat}
    (enough : s.length < fuel) :
    r.readMembers room fuel first seen draft s = .ok (made, octet '\x7d' :: rest) := by
  induction takes generalizing first s fuel with
  | done complete =>
    obtain ⟨fuel, rfl⟩ : ∃ n, fuel = n + 1 := ⟨fuel - 1, by omega⟩
    rw [readMembers, nextKey_brace spells]
    simp only [bind, Except.bind, complete]
    rfl
  | field text known fresh means more ih =>
    obtain ⟨fuel, rfl⟩ : ∃ n, fuel = n + 1 := ⟨fuel - 1, by omega⟩
    obtain ⟨u, v, t, led, spelled, value, others⟩ := spells
    have shorter := length_of_member led spelled value
    rw [readMembers_known led spelled text known fresh
      (steady _ (List.mem_of_find?_eq_some known)) means value (stops_members others)]
    exact ih others (by omega)
  | other text unknown open' more ih =>
    obtain ⟨fuel, rfl⟩ : ∃ n, fuel = n + 1 := ⟨fuel - 1, by omega⟩
    obtain ⟨u, v, t, led, spelled, value, others⟩ := spells
    have shorter := length_of_member led spelled value
    rw [readMembers_unknown led spelled text unknown open' value (stops_members others)]
    exact ih others (by omega)

/-- What comes of the elements of an array, when the fields given are still to come. -/
inductive TakesElements (room : Nat) : List (Field α) → α → List Outline → α → Prop
  | done {draft} : TakesElements room [] draft [] draft
  | field {f fs draft x xs set made} (means : Reader.Means f.read room x set)
      (more : TakesElements room fs (set draft) xs made) :
      TakesElements room (f :: fs) draft (x :: xs) made
  | absent {f fs draft made} (defaulted : f.presence = .defaulted)
      (more : TakesElements room fs draft [] made) : TakesElements room (f :: fs) draft [] made

theorem TakesElements.given {name : String} {reader : Reader β} {set : β → α → α}
    {presence : Presence} {room : Nat} {fs : List (Field α)} {draft made : α} {x : Outline}
    {xs : List Outline} {b : β} (means : reader.Means room x b)
    (more : TakesElements room fs (set b draft) xs made) :
    TakesElements room (Record.field name reader set presence :: fs) draft (x :: xs) made :=
  .field (means_field.2 ⟨b, means, rfl⟩) more

theorem takesElements_of_read {r : Record α} {room : Nat} {fs : List (Field α)}
    (steady : ∀ f ∈ fs, Reader.Steady f.read room) {index : Nat} {draft made : α}
    {s t rest : Bytes} (whole : r.readElements room fs index draft s = .ok (made, t))
    (closed : closeArray t = .ok rest) :
    ∃ xs, SpellsElements (index == 0) xs s rest ∧ TakesElements room fs draft xs made := by
  induction fs generalizing index draft s with
  | nil =>
    cases whole
    exact ⟨[], mark_eq_ok_iff.1 closed, .done⟩
  | cons f fs ih =>
    obtain ⟨steady, others⟩ := List.forall_mem_cons.1 steady
    have later : (index + 1 == 0) = false := rfl
    rw [readElements] at whole
    obtain ⟨⟨more, q⟩, next, further⟩ := Except.of_bind whole
    rcases nextElement_cases next with ⟨u, bracket, rfl, rfl⟩ | ⟨u, led, rfl, rfl⟩
    · by_cases defaulted : f.presence = .defaulted
      · simp only [if_pos defaulted] at further
        obtain ⟨xs, spells, takes⟩ := ih others further
        have stands : skipSpace (octet ']' :: u) = octet ']' :: u :=
          skipSpace_visible (by decide) u
        cases xs with
        | nil =>
          obtain ⟨-, rfl⟩ := List.cons.inj (stands.symm.trans spells)
          exact ⟨[], bracket, .absent defaulted takes⟩
        | cons x xs =>
          obtain ⟨r, t, led, value, -⟩ := spells
          exact absurd stands (led.not_bracket value u)
      · simp only [if_neg defaulted] at further
        cases further
    · obtain ⟨⟨set, v⟩, value, last⟩ := Except.of_bind further
      obtain ⟨x, spells, means⟩ := steady.spelled value
      obtain ⟨xs, spells', takes⟩ := ih others last
      exact ⟨x :: xs, ⟨u, v, led, spells_skipSpace.1 spells, later ▸ spells'⟩,
        .field means takes⟩

theorem readElements_of_takes (r : Record α) {room : Nat} {fs : List (Field α)}
    (steady : ∀ f ∈ fs, Reader.Steady f.read room) {draft made : α} {xs : List Outline}
    (takes : TakesElements room fs draft xs made) (index : Nat) {s rest : Bytes}
    (spells : SpellsElements (index == 0) xs s rest) :
    ∃ t, r.readElements room fs index draft s = .ok (made, t) ∧ closeArray t = .ok rest := by
  induction takes generalizing index s with
  | done => exact ⟨s, rfl, mark_eq_ok_iff.2 spells⟩
  | field means more ih =>
    obtain ⟨steady, others⟩ := List.forall_mem_cons.1 steady
    obtain ⟨u, v, led, value, spells'⟩ := spells
    obtain ⟨b, q, begins, other⟩ := value.begins
    obtain ⟨t, whole, closed⟩ := ih others (index + 1) spells'
    have given := steady.taken (spells_skipSpace.2 value) (stops_elements spells') means
    refine ⟨t, ?_, closed⟩
    rw [readElements, nextElement_led led begins other]
    simp only [bind, Except.bind, given]
    exact whole
  | absent defaulted more ih =>
    obtain ⟨steady, others⟩ := List.forall_mem_cons.1 steady
    have stands : skipSpace (octet ']' :: rest) = octet ']' :: rest :=
      skipSpace_visible (by decide) rest
    obtain ⟨t, whole, closed⟩ := ih others (index + 1) stands
    refine ⟨t, ?_, closed⟩
    rw [readElements, nextElement_bracket spells]
    simp only [bind, Except.bind, if_pos defaulted]
    exact whole

def Makes (r : Record α) (room : Nat) : Outline → α → Prop
  | .scalar _, _ => False
  | .array xs, made => TakesElements room r.fields r.blank xs made
  | .object ms, made => r.Takes room [] r.blank ms made

section

variable {r : Record α} {room : Nat} (steady : ∀ f ∈ r.fields, Reader.Steady f.read room)

include steady

theorem makes_of_read {s rest : Bytes} {made : α} (whole : r.read (room + 1) s = .ok (made, rest)) :
    ∃ x : Outline, x.Spells s rest ∧ r.Makes room x made := by
  rw [read] at whole
  cases begins : skipSpace s with
  | nil =>
    rw [begins] at whole
    cases whole
  | cons b u =>
    simp only [begins] at whole
    cases opens : Skip.opening? b with
    | none =>
      simp only [opens] at whole
      exact absurd whole (Reader.wrongType_ne_ok _ _ _)
    | some bracket =>
      cases bracket with
      | square =>
        simp only [opens] at whole
        obtain ⟨⟨v, t⟩, inside, further⟩ := Except.of_bind whole
        obtain ⟨q, closed, last⟩ := Except.of_bind further
        cases last
        obtain ⟨xs, spells, takes⟩ := takesElements_of_read steady inside closed
        exact ⟨.array xs, ⟨u, Skip.square_of_opening opens ▸ begins, spells⟩, takes⟩
      | curly =>
        simp only [opens] at whole
        obtain ⟨⟨v, t⟩, inside, further⟩ := Except.of_bind whole
        obtain ⟨q, closed, last⟩ := Except.of_bind further
        cases last
        obtain ⟨ms, t, spells, rfl, takes⟩ := takes_of_read steady inside
        obtain ⟨-, rfl⟩ := List.cons.inj (mark_eq_ok_iff.1 closed)
        exact ⟨.object ms, ⟨u, Skip.curly_of_opening opens ▸ begins, spells⟩, takes⟩

theorem read_of_makes {x : Outline} {s rest : Bytes} {made : α} (spells : x.Spells s rest)
    (makes : r.Makes room x made) : r.read (room + 1) s = .ok (made, rest) := by
  match x, spells with
  | .array xs, ⟨u, begins, elements⟩ =>
    obtain ⟨t, inside, closed⟩ := readElements_of_takes r steady makes 0 elements
    rw [read, begins]
    simp only [Skip.opening?_square, bind, Except.bind, inside, closed]
    rfl
  | .object ms, ⟨u, begins, members⟩ =>
    have inside := read_of_takes steady makes members (Nat.lt_succ_self u.length)
    have closed : closeObject (octet '\x7d' :: rest) = .ok rest := rfl
    rw [read, begins]
    simp only [Skip.opening?_curly, bind, Except.bind, inside, closed]
    rfl

end

end Record

/-- What a record decodes to, told from the outline of the document. -/
theorem Record.decode_eq_ok_iff {r : Record α} (steady : ∀ f ∈ r.fields, Reader.Steady f.read 126)
    {document : Bytes} {made : α} : Reader.decode r.read document = .ok made ↔
      ∃ x : Outline, x.IsDocument document ∧ r.Makes 126 x made := by
  constructor
  · intro whole
    obtain ⟨⟨v, s⟩, taken, last⟩ := Except.of_bind whole
    obtain ⟨x, spells, makes⟩ := makes_of_read steady taken
    cases blank : skipSpace s with
    | nil =>
      simp only [blank] at last
      cases last
      exact ⟨x, ⟨s, spells, blank⟩, makes⟩
    | cons b q =>
      simp only [blank] at last
      cases last
  · rintro ⟨x, ⟨s, spells, blank⟩, makes⟩
    have taken : r.read nestingLimit document = .ok (made, s) := read_of_makes steady spells makes
    rw [Reader.decode, taken]
    simp only [bind, Except.bind, blank]
    rfl

end Lifecycle
