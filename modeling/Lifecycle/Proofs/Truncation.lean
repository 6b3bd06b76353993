import Lifecycle.Proofs.Frames
import Lifecycle.Proofs.Torn

/-! Frames that break off. Main statement: of a frame that is decoded, no beginning that lacks the
end of its value is, and nothing is done for it. If its numbers are integers that 64 bits hold, the
error is that the input has ended; but for a break behind the sign of a number in the value of an
unknown member, which is passed over, and then the error is one of form. -/

namespace Lifecycle

open Scan Numeral Outline

variable {α β : Type}

namespace Outline

theorem Led.append {first : Bool} {p r : Bytes} (led : Led first p r) (q : Bytes) :
    Led first (p ++ q) (r ++ q) := by
  cases first with
  | true => exact congrArg (· ++ q) (show p = r from led)
  | false =>
    have begins : skipSpace p = octet ',' :: r := led
    exact (skipSpace_append (by simp [begins]) q).trans (congrArg (· ++ q) begins)

theorem skipSpace_cons_append {p r : Bytes} {b : UInt8} (begins : skipSpace p = b :: r)
    (q : Bytes) : skipSpace (p ++ q) = b :: (r ++ q) := by
  rw [skipSpace_append (by simp [begins]), begins, List.cons_append]

theorem SpellsKey.append {k p r : Bytes} (spells : SpellsKey k p r) (q : Bytes) :
    SpellsKey k (p ++ q) (r ++ q) := by
  obtain ⟨inside, s, begins, colon⟩ := spells
  refine ⟨inside, s ++ q, ?_, skipSpace_cons_append colon q⟩
  rw [skipSpace_cons_append begins]
  simp

mutual

theorem Spells.append {x : Outline} {p r : Bytes} (spells : x.Spells p r) (q : Bytes) :
    x.Spells (p ++ q) (r ++ q) := by
  match x, spells with
  | scalar octets, ⟨whole, begins⟩ =>
    obtain ⟨b, c, rfl, -⟩ := scalar_begins whole
    refine ⟨whole, ?_⟩
    rw [skipSpace_cons_append begins]
    simp
  | array xs, ⟨s, begins, elements⟩ =>
    exact ⟨s ++ q, skipSpace_cons_append begins q, elements_append elements q⟩
  | object ms, ⟨s, begins, members⟩ =>
    exact ⟨s ++ q, skipSpace_cons_append begins q, members_append members q⟩

theorem elements_append {first : Bool} {xs : List Outline} {p r : Bytes}
    (spells : SpellsElements first xs p r) (q : Bytes) :
    SpellsElements first xs (p ++ q) (r ++ q) := by
  match xs, spells with
  | [], closed => exact skipSpace_cons_append closed q
  | x :: xs, ⟨s, t, led, value, more⟩ =>
    exact ⟨s ++ q, t ++ q, led.append q, Spells.append value q, elements_append more q⟩

theorem members_append {first : Bool} {ms : List (Bytes × Outline)} {p r : Bytes}
    (spells : SpellsMembers first ms p r) (q : Bytes) :
    SpellsMembers first ms (p ++ q) (r ++ q) := by
  match ms, spells with
  | [], closed => exact skipSpace_cons_append closed q
  | (k, x) :: ms, ⟨s, u, t, led, key, value, more⟩ =>
    exact ⟨s ++ q, u ++ q, t ++ q, led.append q, key.append q, Spells.append value q,
      members_append more q⟩

end

theorem blank_of_append {r q : Bytes} (blank : skipSpace (r ++ q) = []) : skipSpace q = [] := by
  rw [skipSpace, List.dropWhile_eq_nil_iff] at blank ⊢
  exact fun b mem => blank b (List.mem_append_right r mem)

theorem IsDocument.torn {x : Outline} {p q : Bytes} (spelled : x.IsDocument (p ++ q))
    (short : skipSpace q ≠ []) : ∃ token, x.Torn token p := by
  obtain ⟨rest, spells, blank⟩ := spelled
  obtain ⟨r, rfl, -⟩ | torn := spells.cut
  · exact absurd (blank_of_append blank) short
  · exact torn

/-- The octets break off behind the sign of a number in the value of a member that has none of the
given names. -/
def MembersBehindSign (names : List String) : Bool → List (Bytes × Outline) → Bytes → Prop
  | _, [], _ => False
  | first, (k, x) :: ms, p => ∃ r t, Led first p r ∧ SpellsKey k r t ∧
    ((∀ name ∈ names, text? k ≠ some name) ∧ Torn [octet '-'] x t ∨
      ∃ u, Spells x t u ∧ MembersBehindSign names false ms u)

def BehindSign (names : List String) : Outline → Bytes → Prop
  | object ms, p => ∃ r, skipSpace p = octet '\x7b' :: r ∧ MembersBehindSign names true ms r
  | _, _ => False

theorem stops_behind_sign {names : List String} {ms : List (Bytes × Outline)} {p : Bytes}
    (signed : MembersBehindSign names false ms p) : Stops p := by
  cases ms with
  | nil => exact signed.elim
  | cons m ms =>
    obtain ⟨_, _, led, -⟩ := signed
    exact stops_comma led

end Outline

namespace Reader

/-- Where a value breaks off, the reader finds that the input has ended, in it or with it. -/
def Patient (r : Reader β) (room : Nat) : Prop :=
  ∀ {token x p b}, Torn token x p → x.OfIntegers → r.Means room x b → Json.Unfinished (r room p)

theorem patient_value (room : Nat) : Patient value room := by
  intro token x p v torn integers means
  obtain ⟨s, spells, -⟩ := id means
  have told := ((value_means room).2 ⟨s, [], spells⟩).1 means
  exact Json.readValue_torn torn integers told _ (by simp [Json.fuelFor])

theorem patient_string (room : Nat) : Patient string room := by
  intro token x p t torn integers means
  obtain ⟨s, spells, -⟩ := id means
  obtain ⟨octets, rfl, scalar⟩ :=
    scalar_of_string (((string_means room).2 ⟨s, [], spells⟩).1 means)
  obtain ⟨r, rfl, whole⟩ := Json.string_of_readScalar scalar
  obtain ⟨-, d, missing, same, begins⟩ := torn
  rw [string, begins]
  cases token with
  | nil => exact .inl rfl
  | cons b c =>
    obtain ⟨rfl, rfl⟩ := List.cons.inj same
    exact .inl ((if_pos rfl).trans (string_short whole missing))

theorem patient_field {name : String} {r : Reader β} {set : β → α → α} {presence : Presence}
    {room : Nat} (patient : r.Patient room) :
    Patient (Record.field name r set presence).read room := by
  intro token x p g torn integers means
  obtain ⟨b, told, -⟩ := Record.means_field.1 means
  change Json.Unfinished (r room p >>= _)
  obtain failed | ⟨b', read⟩ := patient torn integers told
  · rw [failed]
    exact .inl rfl
  · rw [read]
    exact .inr ⟨_, rfl⟩

end Reader

namespace Record

section

variable {r : Record α} {room fuel : Nat} {first : Bool} {seen : List String} {draft : α}
  {p q k : Bytes} {key : String}

theorem readMembers_blank (blank : skipSpace p = []) :
    r.readMembers room fuel first seen draft p = .error .ended := by
  cases fuel with
  | zero => rfl
  | succ fuel =>
    rw [readMembers, nextKey_blank blank]
    rfl

theorem readMembers_keyTorn {token : Bytes} (led : Led first p q) (torn : TornKey token k q)
    (text : text? k = some key)
    (fits : key ∉ seen ∧ (r.fields.find? (·.name == key)).isSome ∨
      r.fields.find? (·.name == key) = none ∧ r.closed = false) :
    r.readMembers room fuel first seen draft p = .error .ended := by
  cases fuel with
  | zero => rfl
  | succ fuel =>
    rw [readMembers]
    obtain short | ⟨u, taken, colon⟩ := Scan.key_torn text torn
    · rw [nextKey_short led short]
      rfl
    · rw [nextKey_led led taken]
      obtain ⟨fresh, known⟩ | ⟨unknown, open'⟩ := fits
      · obtain ⟨f, known⟩ := Option.isSome_iff_exists.1 known
        simp [bind, Except.bind, known, fresh, colon]
      · simp [bind, Except.bind, unknown, open', colon]

end

theorem text_ne_of_find? {r : Record α} {k : Bytes} {key : String} (text : text? k = some key)
    (unknown : r.fields.find? (·.name == key) = none) : ∀ name ∈ r.names, text? k ≠ some name := by
  intro name mem same
  cases text.symm.trans same
  obtain ⟨f, given, rfl⟩ := List.mem_map.1 mem
  exact List.find?_eq_none.1 unknown f given BEq.rfl

section

variable {r : Record α} {room : Nat} (steady : ∀ f ∈ r.fields, Reader.Steady f.read room)

include steady

theorem readMembers_torn (patient : ∀ f ∈ r.fields, Reader.Patient f.read room)
    {seen : List String} {draft made : α} {ms : List (Bytes × Outline)}
    (takes : r.Takes room seen draft ms made) {token : Bytes} {first : Bool} {p : Bytes}
    (torn : TornMembers token first ms p) (integers : OfIntegersMembers ms)
    (signed : ¬ MembersBehindSign r.names first ms p) {fuel : Nat} (enough : p.length < fuel) :
    r.readMembers room fuel first seen draft p = .error .ended := by
  -- By the members of the whole document: the part breaks off in the first of them or behind it.
  induction takes generalizing first p fuel with
  | done => exact readMembers_blank torn.2
  | field text known fresh means more ih =>
    obtain ⟨-, blank⟩ | ⟨q, led, inside⟩ := torn
    · exact readMembers_blank blank
    rcases inside with broken | ⟨t, spelled, inside⟩
    · exact readMembers_keyTorn led broken text (.inl ⟨fresh, by simp [known]⟩)
    obtain ⟨fuel, rfl⟩ : ∃ n, fuel = n + 1 := ⟨fuel - 1, by omega⟩
    have mem := List.mem_of_find?_eq_some known
    rcases inside with broken | ⟨u, value, others⟩
    · rw [readMembers_taken led spelled text known fresh]
      exact (patient _ mem broken integers.1 means).bind fun set => readMembers_blank rfl
    · have shorter := length_of_member led spelled value
      rw [readMembers_known led spelled text known fresh (steady _ mem) means value
        (stops_torn_members others)]
      exact ih others integers.2 (fun sign => signed ⟨q, t, led, spelled, .inr ⟨u, value, sign⟩⟩)
        (by omega)
  | other text unknown open' more ih =>
    obtain ⟨-, blank⟩ | ⟨q, led, inside⟩ := torn
    · exact readMembers_blank blank
    rcases inside with broken | ⟨t, spelled, inside⟩
    · exact readMembers_keyTorn led broken text (.inr ⟨unknown, open'⟩)
    obtain ⟨fuel, rfl⟩ : ∃ n, fuel = n + 1 := ⟨fuel - 1, by omega⟩
    rcases inside with broken | ⟨u, value, others⟩
    · have elsewhere : token ≠ [octet '-'] := by
        rintro rfl
        exact signed ⟨q, t, led, spelled, .inl ⟨text_ne_of_find? text unknown, broken⟩⟩
      rw [readMembers_passed led spelled text unknown open']
      obtain failed | ⟨-, passed⟩ := Json.skip_torn broken integers.1
      · rw [failed, Json.faultBehind, if_neg elsewhere]
        rfl
      · rw [passed]
        exact readMembers_blank rfl
    · have shorter := length_of_member led spelled value
      rw [readMembers_unknown led spelled text unknown open' value (stops_torn_members others)]
      exact ih others integers.2 (fun sign => signed ⟨q, t, led, spelled, .inr ⟨u, value, sign⟩⟩)
        (by omega)

theorem readMembers_behindSign {seen : List String} {draft made : α} {ms : List (Bytes × Outline)}
    (takes : r.Takes room seen draft ms made) {first : Bool} {p : Bytes}
    (signed : MembersBehindSign r.names first ms p) (integers : OfIntegersMembers ms) {fuel : Nat}
    (enough : p.length < fuel) :
    r.readMembers room fuel first seen draft p = .error .malformed := by
  induction takes generalizing first p fuel with
  | done => exact signed.elim
  | @field _ _ _ key _ f _ _ _ text known fresh means more ih =>
    obtain ⟨q, t, led, spelled, inside⟩ := signed
    obtain ⟨fuel, rfl⟩ : ∃ n, fuel = n + 1 := ⟨fuel - 1, by omega⟩
    have mem := List.mem_of_find?_eq_some known
    obtain ⟨stranger, -⟩ | ⟨u, value, others⟩ := inside
    · have named : f.name = key := by simpa using List.find?_some known
      exact absurd text (stranger key (named ▸ List.mem_map_of_mem mem))
    · have shorter := length_of_member led spelled value
      rw [readMembers_known led spelled text known fresh (steady _ mem) means value
        (stops_behind_sign others)]
      exact ih others integers.2 (by omega)
  | other text unknown open' more ih =>
    obtain ⟨q, t, led, spelled, inside⟩ := signed
    obtain ⟨fuel, rfl⟩ : ∃ n, fuel = n + 1 := ⟨fuel - 1, by omega⟩
    obtain ⟨-, broken⟩ | ⟨u, value, others⟩ := inside
    · rw [readMembers_passed led spelled text unknown open']
      obtain failed | ⟨ended, -⟩ := Json.skip_torn broken integers.1
      · rw [failed]
        rfl
      · exact absurd ended (by decide)
    · have shorter := length_of_member led spelled value
      rw [readMembers_unknown led spelled text unknown open' value (stops_behind_sign others)]
      exact ih others integers.2 (by omega)

end

def Unclosed (outcome : Except Fault (α × Bytes)) : Prop :=
  outcome = .error .ended ∨ ∃ v t, outcome = .ok (v, t) ∧ closeArray t = .error .ended

theorem readElements_blank (r : Record α) {room index : Nat} {draft : α} {p : Bytes}
    (fs : List (Field α)) (blank : skipSpace p = []) :
    Unclosed (r.readElements room fs index draft p) := by
  cases fs with
  | nil => exact .inr ⟨draft, p, rfl, mark_blank blank _⟩
  | cons f fs =>
    rw [readElements, nextElement_blank blank]
    exact .inl rfl

theorem readElements_torn (r : Record α) {room : Nat} {fs : List (Field α)}
    (steady : ∀ f ∈ fs, Reader.Steady f.read room)
    (patient : ∀ f ∈ fs, Reader.Patient f.read room) {draft made : α} {xs : List Outline}
    (takes : TakesElements room fs draft xs made) (index : Nat) {token p : Bytes}
    (torn : TornElements token (index == 0) xs p) (integers : OfIntegersElements xs) :
    Unclosed (r.readElements room fs index draft p) := by
  induction takes generalizing index p with
  | done => exact readElements_blank r _ torn.2
  | absent => exact readElements_blank r _ torn.2
  | field means more ih =>
    obtain ⟨steady, steadies⟩ := List.forall_mem_cons.1 steady
    obtain ⟨patient, patients⟩ := List.forall_mem_cons.1 patient
    obtain ⟨-, blank⟩ | ⟨q, led, inside⟩ := torn
    · exact readElements_blank r _ blank
    rw [readElements]
    rcases inside with broken | ⟨t, value, others⟩
    · obtain ⟨-, blank⟩ | ⟨b, u, begins, other⟩ := broken.begins
      · rw [nextElement_short led blank]
        exact .inl rfl
      · rw [nextElement_led led begins other]
        obtain failed | ⟨set, read⟩ := patient (torn_skipSpace.2 broken) integers.1 means
        · simp only [bind, Except.bind, failed]
          exact .inl rfl
        · simp only [bind, Except.bind, read]
          exact readElements_blank r _ rfl
    · obtain ⟨b, u, begins, other⟩ := value.begins
      have given := steady.taken (spells_skipSpace.2 value) (stops_torn_elements others) means
      rw [nextElement_led led begins other]
      simp only [bind, Except.bind, given]
      exact ih steadies patients (index + 1) others integers.2

section

variable {r : Record α} (steady : ∀ f ∈ r.fields, Reader.Steady f.read 126)

include steady

theorem decode_append {p q : Bytes} {made made' : α} (decoded : Reader.decode r.read p = .ok made)
    (longer : Reader.decode r.read (p ++ q) = .ok made') : skipSpace q = [] := by
  obtain ⟨x, ⟨rest, spells, -⟩, makes⟩ := (decode_eq_ok_iff steady).1 decoded
  obtain ⟨y, ⟨rest', spells', blank⟩, makes'⟩ := (decode_eq_ok_iff steady).1 longer
  have read := read_of_makes steady (spells.append q) makes
  rw [read_of_makes steady spells' makes'] at read
  obtain ⟨-, rfl⟩ := Prod.mk.inj (Except.ok.inj read)
  exact blank_of_append blank

variable (patient : ∀ f ∈ r.fields, Reader.Patient f.read 126) {x : Outline} {made : α}
  (makes : r.Makes 126 x made) {p : Bytes} (integers : x.OfIntegers)

include makes integers

include patient in
theorem read_torn {token : Bytes} (torn : x.Torn token p) (signed : ¬ x.BehindSign r.names p) :
    r.read nestingLimit p = .error .ended := by
  cases x with
  | scalar octets => exact makes.elim
  | array xs =>
    obtain ⟨-, blank⟩ | ⟨t, begins, inside⟩ := torn
    · rw [read, blank]
    · rw [read, begins]
      simp only [Skip.opening?_square, nestingLimit]
      obtain failed | ⟨v, u, taken, closed⟩ :=
        readElements_torn r steady patient makes 0 inside integers
      · rw [failed]
        rfl
      · simp only [bind, Except.bind, taken, closed]
  | object ms =>
    obtain ⟨-, blank⟩ | ⟨t, begins, inside⟩ := torn
    · rw [read, blank]
    · have failed := readMembers_torn steady patient makes inside integers
        (fun sign => signed ⟨t, begins, sign⟩) (Nat.lt_succ_self t.length)
      rw [read, begins]
      simp only [Skip.opening?_curly, nestingLimit, failed]
      rfl

theorem read_behindSign (signed : x.BehindSign r.names p) :
    r.read nestingLimit p = .error .malformed := by
  match x, signed with
  | .object ms, ⟨t, begins, sign⟩ =>
    have failed := readMembers_behindSign steady makes sign integers (Nat.lt_succ_self t.length)
    rw [read, begins]
    simp only [Skip.opening?_curly, nestingLimit, failed]
    rfl

end

end Record

theorem Reader.decode_error {r : Reader α} {document : Bytes} {fault : Fault}
    (failed : r nestingLimit document = .error fault) : r.decode document = .error fault := by
  rw [decode, failed]
  rfl

namespace Envelope

theorem patient : ∀ f ∈ record.fields, Reader.Patient f.read 126 := by
  simp only [record, List.forall_mem_cons]
  exact ⟨Reader.patient_field (Reader.patient_string 126),
    Reader.patient_field (Reader.patient_string 126),
    Reader.patient_field (Reader.patient_value 126), List.forall_mem_nil _⟩

/-- A frame cannot be decoded, for this reason. Its caller is told so at once, at whatever moment it
comes, and nothing is done for it. -/
structure Undecoded (frame : Bytes) (fault : Fault) : Prop where
  accept : Router.accept .json frame = .error (.decode fault.message)
  received (m : Machine) : (m.receive .json frame).2 = some (.decode fault.message) ∧
    m.Untouched (m.receive .json frame).1
  taken (s : Session) (id : String) :
    (s.take (.frame .json frame id)).2 = .refused (.decode fault.message) ∧
      s.machine.Untouched (s.take (.frame .json frame id)).1.machine

theorem undecoded_of_decode {frame : Bytes} {fault : Fault}
    (failed : reader.decode frame = .error fault) : Undecoded frame fault := by
  have rejected : Codec.json.decode frame = .error fault.message :=
    congrArg (Except.mapError Fault.message) failed
  have accept := Router.Verdict.accept (.undecodable rejected)
  refine ⟨accept, fun m => Machine.receive_error accept, fun s id => ?_⟩
  obtain ⟨told, same⟩ := (s.take_frame .json frame id).1 _ accept
  exact ⟨told, same ▸ (Machine.receive_error accept).2⟩

/-- What becomes of a beginning of a frame. -/
structure BreaksOff (part rest : Bytes) : Prop where
  outlined : ∃! x : Outline, x.IsDocument (part ++ rest)
  refused : ∃ fault, Undecoded part fault
  /-- If its numbers are integers, the input has ended. -/
  ended : ∀ x : Outline, x.IsDocument (part ++ rest) → x.OfIntegers →
    ¬ x.BehindSign record.names part → Undecoded part .ended
  /-- But it is malformed behind the sign of a number that is passed over. -/
  signed : ∀ x : Outline, x.IsDocument (part ++ rest) → x.OfIntegers →
    x.BehindSign record.names part → Undecoded part .malformed

/-- Of a frame that is decoded, no beginning without the last octet of its value is. -/
theorem breaksOff_of_decode {part rest : Bytes} {e : Envelope}
    (decoded : Codec.json.decode (part ++ rest) = .ok e) (short : skipSpace rest ≠ []) :
    BreaksOff part rest := by
  have decoded : reader.decode (part ++ rest) = .ok e := by
    cases outcome : reader.decode (part ++ rest) with
    | ok e' => simpa [Codec.json, outcome, Except.mapError] using decoded
    | error fault => simp [Codec.json, outcome, Except.mapError] at decoded
  obtain ⟨x, spelled, makes⟩ := (Record.decode_eq_ok_iff steady).1 decoded
  obtain ⟨token, torn⟩ := spelled.torn short
  have one (y : Outline) (spelled' : y.IsDocument (part ++ rest)) : y = x :=
    spelled'.unique spelled
  refine ⟨⟨x, spelled, one⟩, ?_, fun y spelled' integers signed => ?_,
    fun y spelled' integers signed => ?_⟩
  · obtain ⟨fault, failed⟩ := refused fun e' decoded' =>
      short (Record.decode_append steady decoded' decoded)
    exact ⟨fault, undecoded_of_decode failed⟩
  · obtain rfl := one y spelled'
    exact undecoded_of_decode (Reader.decode_error
      (Record.read_torn steady patient makes integers torn signed))
  · obtain rfl := one y spelled'
    exact undecoded_of_decode (Reader.decode_error
      (Record.read_behindSign steady makes integers signed))

def debt : Outline := .scalar (ascii ['-', '1'])

def listedDebt : Outline :=
  .array [.scalar (ascii ['"', '7', '"']), .scalar (ascii ['"', 's', '"']), debt]

def remarkedDebt : Outline := .object ((ascii ['x'], debt) :: sample)

theorem debt_ofIntegers : debt.OfIntegers := fun _ => ⟨1, .inr ⟨rfl, by decide⟩⟩

theorem text_ofIntegers (k : Bytes) : (Outline.scalar (octet '"' :: k)).OfIntegers := by
  rintro ⟨b, ⟨⟩, minus | digit⟩
  · exact absurd minus (by decide)
  · exact absurd digit (by decide)

theorem remarkedDebt_ofIntegers : remarkedDebt.OfIntegers :=
  ⟨debt_ofIntegers, text_ofIntegers _, text_ofIntegers _, trivial⟩

theorem remarkedDebt_isDocument : remarkedDebt.IsDocument (remarkedDebt.spaced []) :=
  ⟨[], ⟨_, rfl, _, _, _, rfl, ⟨rfl, _, rfl, rfl⟩, ⟨rfl, rfl⟩, _, _, _, rfl, ⟨rfl, _, rfl, rfl⟩,
    ⟨rfl, rfl⟩, _, _, _, rfl, ⟨rfl, _, rfl, rfl⟩, ⟨rfl, rfl⟩, rfl⟩, rfl⟩

/-- Behind its sign the input ends in the one place, and is malformed in the other. -/
theorem breaksOff_behind_signs :
    Undecoded ((listedDebt.spaced []).take 10) .ended ∧
      Undecoded ((remarkedDebt.spaced []).take 6) .malformed := by
  constructor
  · have breaks : BreaksOff ((listedDebt.spaced []).take 10) ((listedDebt.spaced []).drop 10) :=
      breaksOff_of_decode (e := ⟨"7", "s", .integer (-1)⟩) rfl (by decide)
    refine breaks.ended listedDebt ?_ ⟨text_ofIntegers _, text_ofIntegers _, debt_ofIntegers,
      trivial⟩ False.elim
    exact ⟨[], ⟨_, rfl, _, _, rfl, ⟨rfl, rfl⟩, _, _, rfl, ⟨rfl, rfl⟩, _, _, rfl, ⟨rfl, rfl⟩, rfl⟩,
      rfl⟩
  · have breaks : BreaksOff ((remarkedDebt.spaced []).take 6) ((remarkedDebt.spaced []).drop 6) :=
      breaksOff_of_decode (e := ⟨"7", "s", .null⟩) rfl (by decide)
    refine breaks.signed remarkedDebt ?_ remarkedDebt_ofIntegers ?_
    · rw [List.take_append_drop]
      exact remarkedDebt_isDocument
    · exact ⟨_, rfl, _, _, rfl, ⟨rfl, _, rfl, rfl⟩, .inl ⟨by decide, rfl, _, by decide, rfl, rfl⟩⟩

/-- So the end of the input is not always what is told. -/
theorem ended_not_always : ¬ ∀ (part rest : Bytes) (e : Envelope) (x : Outline),
    Codec.json.decode (part ++ rest) = .ok e → skipSpace rest ≠ [] →
      x.IsDocument (part ++ rest) → x.OfIntegers →
        Router.accept .json part = .error (.decode "<eof>") := by
  intro always
  have ended := always ((remarkedDebt.spaced []).take 6) ((remarkedDebt.spaced []).drop 6)
    ⟨"7", "s", .null⟩ remarkedDebt rfl (by decide)
    (by rw [List.take_append_drop]; exact remarkedDebt_isDocument) remarkedDebt_ofIntegers
  have malformed : Router.accept .json ((remarkedDebt.spaced []).take 6) =
    .error (.decode "<syntax>") := rfl
  exact absurd (ended.symm.trans malformed) (by simp)

end Envelope

end Lifecycle
