import Lifecycle.Proofs.Fields
import Lifecycle.Router

/-! The two textual routes to the arguments of a command: in an envelope, whose arguments are any
value that is turned into a document afterwards, and in a request, whose arguments are read as a
document. Main statement: for the same arguments both give the same document, and the request
refuses whatever the envelope refuses. -/

namespace Lifecycle

open Scan Numeral Outline Record

variable {α : Type}

namespace Members

theorem ascending_insert {key : String} {value : α} {m : Members α} (ascending : m.Ascending) :
    (m.insert key value).Ascending := by
  fun_induction insert key value m with
  | case1 => exact List.pairwise_singleton _ _
  | case2 k v rest less =>
    refine List.pairwise_cons.2 ⟨List.forall_mem_cons.2 ⟨less, fun k' mem => ?_⟩, ascending⟩
    exact String.lt_trans less ((List.pairwise_cons.1 ascending).1 k' mem)
  | case3 => exact ascending
  | case4 k v rest notLess other ih =>
    obtain ⟨least, others⟩ := List.pairwise_cons.1 ascending
    refine List.pairwise_cons.2 ⟨fun k' mem => ?_, ih others⟩
    rcases mem_keys_insert.1 mem with rfl | old
    · exact String.not_le.1 fun le => other (String.le_antisymm le (String.not_lt.1 notLess))
    · exact least k' old

end Members

namespace Outline

open Json

theorem orderedMembers_insert {key : String} {v : Json} {m : Members Json} (first : v.Ordered)
    (others : OrderedMembers m) : OrderedMembers (m.insert key v) := by
  fun_induction Members.insert key v m with
  | case1 => exact ⟨first, trivial⟩
  | case2 => exact ⟨first, others⟩
  | case3 => exact ⟨first, others.2⟩
  | case4 k w rest _ _ ih => exact ⟨others.1, ih others.2⟩

mutual

theorem ordered_of_value? {x : Outline} {room : Nat} {v : Json} (means : x.value? room = some v) :
    v.Ordered := by
  match x, room with
  | .scalar octets, room =>
    have bare := depth_of_readScalar (value?_scalar.1 means)
    cases v with
    | array | object => exact absurd bare (Nat.succ_ne_zero _)
    | _ => trivial
  | .array xs, room + 1 =>
    obtain ⟨vs, elements, rfl⟩ := Option.map_eq_some_iff.1 means
    exact ordered_of_elements? elements
  | .object ms, room + 1 =>
    obtain ⟨m, members, rfl⟩ := Option.map_eq_some_iff.1 means
    exact ordered_of_members? members List.Pairwise.nil trivial

theorem ordered_of_elements? {xs : List Outline} {room : Nat} {vs : List Json}
    (means : elements? room xs = some vs) : OrderedElements vs := by
  match xs with
  | [] =>
    cases means
    trivial
  | x :: xs =>
    obtain ⟨v, ws, first, more, rfl⟩ := elements?_cons.1 means
    exact ⟨ordered_of_value? first, ordered_of_elements? more⟩

theorem ordered_of_members? {ms : List (Bytes × Outline)} {room : Nat} {done m : Members Json}
    (means : members? room done ms = some m) (ascending : done.Ascending)
    (ordered : OrderedMembers done) : m.Ascending ∧ OrderedMembers m := by
  match ms with
  | [] =>
    cases means
    exact ⟨ascending, ordered⟩
  | (k, x) :: ms =>
    obtain ⟨key, v, -, value, more⟩ := members?_cons.1 means
    exact ordered_of_members? more (Members.ascending_insert ascending)
      (orderedMembers_insert (ordered_of_value? value) ordered)

end

theorem get?_of_members? {ms : List (Bytes × Outline)} {room : Nat} {done m : Members Json}
    (means : members? room done ms = some m) (key : String) : m.get? key =
      (values key ms).getLast?.elim (done.get? key) (·.value? room) := by
  induction ms generalizing done with
  | nil =>
    cases means
    rfl
  | cons head ms ih =>
    obtain ⟨k, x⟩ := head
    obtain ⟨key', v, text, value, more⟩ := members?_cons.1 means
    rw [ih more, Members.get?_insert, values_cons text]
    by_cases same : key' = key
    · rw [if_pos same.symm, if_pos same, List.getLast?_cons]
      cases (values key ms).getLast? with
      | none => exact value.symm
      | some y => rfl
    · rw [if_neg (Ne.symm same), if_neg same]

end Outline

namespace Envelope

/-- A document of an envelope, with the outline of its arguments, if any: an object with any
further members, or an array. -/
def Carries (id label : String) (given : List Outline) : Outline → Prop
  | .object ms => Keyed ms ∧
    (∃ x, values "id" ms = [x] ∧ x.value? 126 = some (.string id)) ∧
    (∃ x, values "cmd" ms = [x] ∧ x.value? 126 = some (.string label)) ∧ values "args" ms = given
  | .array xs => ∃ x y, xs = x :: y :: given ∧ x.value? 126 = some (.string id) ∧
    y.value? 126 = some (.string label)
  | .scalar _ => False

theorem decode_of_carries {id label : String} {given : List Outline} {y : Outline}
    {document : Bytes} (spelled : y.IsDocument document) (carries : Carries id label given y)
    {v : Json} (args : given = [] ∧ v = .null ∨ ∃ x, given = [x] ∧ x.value? 126 = some v) :
    reader.decode document = .ok ⟨id, label, v⟩ := by
  cases y with
  | scalar octets => exact carries.elim
  | object ms =>
    obtain ⟨keyed, named, labelled, rfl⟩ := carries
    exact (decode_object spelled).2 ⟨keyed, named, labelled, args⟩
  | array xs =>
    obtain ⟨x, y, rfl, named, labelled⟩ := carries
    have whole : ∀ z ∈ x :: y :: given, z.Whole := by
      obtain ⟨rest, ⟨r, -, elements⟩, -⟩ := spelled
      exact whole_of_elements elements
    have first := ((Reader.string_means 126).2 (whole x (by simp))).2 named
    have second := ((Reader.string_means 126).2 (whole y (by simp))).2 labelled
    refine decode_array spelled (.given first (.given second ?_))
    rcases args with ⟨rfl, rfl⟩ | ⟨z, rfl, value⟩
    · exact .absent rfl .done
    · exact .given (((Reader.value_means 126).2 (whole z (by simp))).2 value) .done

end Envelope

namespace Router

def Framed (c : Command) (given : List Outline) (frame : Bytes) : Prop :=
  ∃ (y : Outline) (id label : String), y.IsDocument frame ∧ Envelope.Carries id label given y ∧
    Command.parse label = .ok c

theorem accept_of_framed {c : Command} {given : List Outline} {frame : Bytes}
    (framed : Framed c given frame) {v : Json}
    (args : given = [] ∧ v = .null ∨ ∃ x, given = [x] ∧ x.value? 126 = some v) :
    ∃ id, accept .json frame =
      ((Args.ofJson v).mapError .invalidArgs).map fun args => (id, ⟨c, args⟩) := by
  obtain ⟨y, id, label, spelled, carries, parsed⟩ := framed
  have decoded : Codec.json.decode frame = .ok ⟨id, label, v⟩ := by
    change (Envelope.reader.decode frame).mapError Fault.message = _
    rw [Envelope.decode_of_carries spelled carries args]
    rfl
  refine ⟨id, ?_⟩
  rw [accept, decoded]
  simp only [bind, Except.bind, Except.mapError, parsed]
  cases Args.ofJson v <;> rfl

end Router

theorem Args.reader_means (room : Nat) : Args.reader.Steady room ∧ ∀ {x : Outline} {a : Args},
    x.Whole → (Args.reader.Means room x a ↔ x.value? room = some a.toJson) := by
  have read {s rest : Bytes} {a : Args} :
      Args.reader room s = .ok (a, rest) ↔ Reader.members room s = .ok (a.members, rest) := by
    constructor
    · intro whole
      obtain ⟨⟨m, s'⟩, taken, last⟩ := Except.of_bind whole
      cases last
      exact taken
    · intro taken
      rw [Args.reader, taken]
      rfl
  obtain ⟨steady, means⟩ := Reader.members_means room
  refine Reader.Steady.of (fun whole => ?_) (fun spells stops told => ?_)
  · obtain ⟨x, spells, told⟩ := steady.spelled (read.1 whole)
    exact ⟨x, spells, (means ⟨_, _, spells⟩).1 told⟩
  · exact read.2 (steady.taken spells stops ((means ⟨_, _, spells⟩).2 told))

theorem Command.reader_means (room : Nat) : Command.reader.Steady room ∧
    ∀ {x : Outline} {c : Command}, x.Whole →
      (Command.reader.Means room x c ↔ x.Names room c.name) := by
  obtain ⟨steady, means⟩ := Reader.choice_means Command.all Command.name room
  refine ⟨steady, fun {x c} whole => (means whole).trans ⟨?_, fun names => ?_⟩⟩
  · rintro ⟨t, known, names⟩
    have same : c.name = t := by simpa using List.find?_some known
    rwa [same]
  · exact ⟨c.name, Command.ofName?_name c, names⟩

namespace Request

def Carries (c : Command) (given : List Outline) : Outline → Prop
  | .object ms => Keyed ms ∧ (∃ x, values "command" ms = [x] ∧ x.Names 126 c.name) ∧
    values "args" ms = given
  | .array xs => ∃ x, xs = x :: given ∧ x.Names 126 c.name
  | .scalar _ => False

theorem record_fields : record.fields =
    [field "command" Command.reader (fun v r => { r with command := v }),
      field "args" Args.reader (fun v r => { r with args := v }) .defaulted] := rfl

theorem steady : ∀ f ∈ record.fields, Reader.Steady f.read 126 :=
  steady_pair record_fields (Command.reader_means 126).1 (Args.reader_means 126).1

/-- What the arguments of a request come to: nothing is the empty document, and a value is its own
document if it is an object. -/
theorem slot_args {required : Prop} (free : ¬ required) {given : List Outline}
    (whole : ∀ x ∈ given, x.Whole) (a : Args) :
    Slot (Args.reader.Means 126) required False given .empty a ↔
      given = [] ∧ a = .empty ∨ ∃ x, given = [x] ∧ x.value? 126 = some a.toJson := by
  rw [eq_false free, slot_optional id]
  refine or_congr_right (exists_congr fun x => and_congr_right fun one => ?_)
  exact (Args.reader_means 126).2 (whole x (by simp [one]))

theorem slot_command {required : Prop} {x : Outline} (whole : x.Whole) {c : Command}
    (names : x.Names 126 c.name) (c' : Command) :
    Slot (Command.reader.Means 126) required False [x] .start c' ↔ c' = c := by
  have means := ((Command.reader_means 126).2 whole).2 names
  have one : Slot (Command.reader.Means 126) required False [x] .start c' ↔
      Command.reader.Means 126 x c' := by simp [Slot]
  exact one.trans ⟨fun means' => (Command.reader_means 126).1.functional means' means,
    fun same => same ▸ means⟩

theorem makes_iff {c : Command} {given : List Outline} {y : Outline} {document : Bytes}
    (spelled : y.IsDocument document) (carries : Carries c given y) {r : Request} :
    record.Makes 126 y r ↔ r.command = c ∧
      (given = [] ∧ r.args = .empty ∨ ∃ x, given = [x] ∧ x.value? 126 = some r.args.toJson) := by
  have puts (c : Command) (a : Args) (d : Command) :
      { Request.mk c a with command := d } = Request.mk d a := rfl
  have puts' (c : Command) (a b : Args) :
      { Request.mk c a with args := b } = Request.mk c b := rfl
  obtain ⟨rest, spells, -⟩ := spelled
  cases y with
  | scalar octets => exact carries.elim
  | array xs =>
    obtain ⟨x, rfl, names⟩ := carries
    obtain ⟨_, -, elements⟩ := spells
    obtain ⟨first, others⟩ := List.forall_mem_cons.1 (whole_of_elements elements)
    change TakesElements 126 record.fields (Request.mk .start .empty) (x :: given) r ↔ _
    rw [record_fields]
    refine (takesElements_pair puts puts').trans ⟨?_, fun ⟨command, args⟩ => ?_⟩
    · rintro ⟨c', a, rfl, command, args⟩
      exact ⟨(slot_command first names c').1 command, (slot_args (by decide) others a).1 args⟩
    · exact ⟨_, _, rfl, (slot_command first names _).2 command,
        (slot_args (by decide) others _).2 args⟩
  | object ms =>
    obtain ⟨keyed, ⟨x, one, names⟩, rfl⟩ := carries
    obtain ⟨r, -, members⟩ := spells
    have whole : ∀ m ∈ ms, m.2.Whole := fun m mem => (whole_of_members members m mem).2
    have first : x.Whole := whole_of_mem_values whole (one ▸ List.mem_singleton_self x)
    have others : ∀ y ∈ values "args" ms, y.Whole := fun y => whole_of_mem_values whole
    have unseen (key : String) : (key ∈ ([] : List String)) = False :=
      eq_false List.not_mem_nil
    change record.Takes 126 [] (Request.mk .start .empty) ms _ ↔ _
    refine (takes_pair record_fields (by decide) puts puts').trans ?_
    rw [unseen, unseen, one]
    constructor
    · rintro ⟨-, c', a, rfl, command, args⟩
      exact ⟨(slot_command first names c').1 command, (slot_args (by decide) others a).1 args⟩
    · rintro ⟨command, args⟩
      exact ⟨fun m mem => (keyed m mem).imp fun _ text => ⟨text, nofun⟩, _, _, rfl,
        (slot_command first names _).2 command, (slot_args (by decide) others _).2 args⟩

theorem decode_of_carries {c : Command} {given : List Outline} {y : Outline} {document : Bytes}
    (spelled : y.IsDocument document) (carries : Carries c given y) {r : Request} :
    reader.decode document = .ok r ↔ r.command = c ∧
      (given = [] ∧ r.args = .empty ∨ ∃ x, given = [x] ∧ x.value? 126 = some r.args.toJson) := by
  rw [reader, decode_eq_ok_iff steady, ← makes_iff spelled carries]
  constructor
  · rintro ⟨y', spelled', makes⟩
    obtain rfl := spelled.unique spelled'
    exact makes
  · exact fun makes => ⟨y, spelled, makes⟩

end Request

namespace Outline

def quoted (t : String) : Outline := .scalar (Json.stringBytes t)

theorem value?_quoted (room : Nat) (t : String) : (quoted t).value? room = some (.string t) := by
  obtain ⟨b, r, same, -, -, read⟩ := Json.scalar_string t []
  rw [List.append_nil] at same
  refine value?_scalar.2 ?_
  rw [show Json.stringBytes t = _ from same]
  exact read

theorem whole_quoted (t : String) : (quoted t).Whole := by
  obtain ⟨b, p, same, reads⟩ := Json.readScalar_local (value?_scalar.1 (value?_quoted 0 t))
  have passed := (reads [] stops_nil).2
  rw [← same] at passed
  exact ⟨Json.stringBytes t, [], passed, by
    rw [List.append_nil]
    have leads := Json.leads_bytes (v := .string t) trivial []
    rw [List.append_nil] at leads
    exact Json.skipSpace_of_leads leads⟩

theorem exists_text {v : Json} (ordered : v.Ordered) (integral : v.Integral) {room : Nat}
    (fits : v.depth ≤ room) : ∃ x : Outline, x.IsDocument v.bytes ∧ x.value? room = some v := by
  have read := Json.readValue_bytes ordered integral _ (Nat.le_refl _) room stops_nil
  rw [List.append_nil, if_pos fits] at read
  obtain ⟨x, spells, means⟩ := (Json.spells_of_read _).1 _ _ _ _ read
  exact ⟨x, ⟨[], spells, rfl⟩, means⟩

theorem isDocument_members {ms : List (Bytes × Outline)}
    (keyed : ∀ m ∈ ms, ∃ key, text? m.1 = some key) (whole : ∀ m ∈ ms, m.2.Whole) :
    (object ms).IsDocument ((object ms).spaced []) := by
  refine isDocument_object (List.forall_mem_nil _) fun m mem => ⟨?_, whole m mem⟩
  obtain ⟨key, text⟩ := keyed m mem
  exact inside_of_text? text

end Outline

theorem Command.parse_label (c : Command) : parse c.label = .ok c := by cases c <;> rfl

theorem Router.exists_framed (c : Command) {x : Outline} (whole : x.Whole) :
    ∃ frame, Framed c [x] frame := by
  let ms : List (Bytes × Outline) := [(Envelope.ascii ['i', 'd'], quoted ""),
    (Envelope.ascii ['c', 'm', 'd'], quoted c.label), (Envelope.ascii ['a', 'r', 'g', 's'], x)]
  have keyed : Keyed ms := by
    simp only [Keyed, ms, List.forall_mem_cons]
    exact ⟨⟨"id", rfl⟩, ⟨"cmd", rfl⟩, ⟨"args", rfl⟩, nofun⟩
  have spelled := isDocument_members keyed (by simp [ms, whole, whole_quoted])
  exact ⟨_, .object ms, "", c.label, spelled, ⟨keyed, ⟨_, rfl, value?_quoted ..⟩,
    ⟨_, rfl, value?_quoted ..⟩, rfl⟩, c.parse_label⟩

theorem Request.exists_carries (c : Command) {x : Outline} (whole : x.Whole) :
    ∃ (y : Outline) (document : Bytes), y.IsDocument document ∧ Carries c [x] y := by
  let ms : List (Bytes × Outline) :=
    [(Envelope.ascii ['c', 'o', 'm', 'm', 'a', 'n', 'd'], quoted c.name),
      (Envelope.ascii ['a', 'r', 'g', 's'], x)]
  have keyed : Keyed ms := by
    simp only [Keyed, ms, List.forall_mem_cons]
    exact ⟨⟨"command", rfl⟩, ⟨"args", rfl⟩, nofun⟩
  have spelled := isDocument_members keyed (by simp [ms, whole, whole_quoted])
  exact ⟨.object ms, _, spelled, keyed, ⟨_, rfl, .inl (value?_quoted ..)⟩, rfl⟩

namespace Args

open Router Envelope

def Requested (c : Command) (given : List Outline) (document : Bytes) : Prop :=
  ∃ y : Outline, y.IsDocument document ∧ Request.Carries c given y

theorem ofJson_eq_ok_iff {v : Json} {a : Args} :
    ofJson v = .ok a ↔ v = .null ∧ a = .empty ∨ v = a.toJson := by
  obtain ⟨m⟩ := a
  cases v <;> simp [ofJson, toJson, empty, eq_comm]

section

variable {c : Command} {x : Outline} {v : Json} {frame document : Bytes}
  (value : x.value? 126 = some v)

include value

theorem accept_eq_ok_iff (framed : Framed c [x] frame) {r : Request} :
    (∃ id, accept .json frame = .ok (id, r)) ↔ r.command = c ∧ ofJson v = .ok r.args := by
  obtain ⟨id, accepted⟩ := accept_of_framed framed (.inr ⟨x, rfl, value⟩)
  obtain ⟨command, args⟩ := r
  rw [accepted]
  cases ofJson v with
  | error e => exact ⟨nofun, nofun⟩
  | ok a =>
    simp only [Except.map, Except.mapError, Except.ok.injEq, Prod.mk.injEq, Request.mk.injEq]
    constructor
    · rintro ⟨_, rfl, rfl, rfl⟩
      exact ⟨rfl, rfl⟩
    · rintro ⟨rfl, rfl⟩
      exact ⟨id, rfl, rfl, rfl⟩

theorem decode_eq_ok_iff (requested : Requested c [x] document) {r : Request} :
    Request.reader.decode document = .ok r ↔ r.command = c ∧ v = r.args.toJson := by
  obtain ⟨y, spelled, carries⟩ := requested
  rw [Request.decode_of_carries spelled carries]
  refine and_congr_right fun _ => ⟨?_, fun same => .inr ⟨x, rfl, same ▸ value⟩⟩
  rintro (⟨⟨⟩, -⟩ | ⟨_, ⟨⟩, value'⟩)
  exact Option.some.inj (value.symm.trans value')

end

/-- The same arguments by two routes. -/
structure RoutesAgree : Prop where
  envelope {c x v frame} : x.value? 126 = some v → Framed c [x] frame →
    ((∃ id r, accept .json frame = .ok (id, r)) ↔ v = .null ∨ ∃ m, v = .object m)
  invalid {c x v frame e} : x.value? 126 = some v → Framed c [x] frame → ofJson v = .error e →
    accept .json frame = .error (.invalidArgs e)
  request {c x v document} : x.value? 126 = some v → Requested c [x] document →
    ((∃ r, Request.reader.decode document = .ok r) ↔ ∃ m, v = .object m)
  /-- If both lead to a document, that is the same, the one that the value is turned into, with the
  text of the value, in which all keys ascend. -/
  agree {c x v frame document id r r'} : x.value? 126 = some v → Framed c [x] frame →
    Requested c [x] document → accept .json frame = .ok (id, r) →
    Request.reader.decode document = .ok r' →
    r.command = c ∧ r'.command = c ∧ r.args = r'.args ∧ ofJson v = .ok r.args ∧
      r.args.text = v.text ∧ v.Ordered
  /-- Of a key that is repeated in the text the last value counts. -/
  last {c ms v document r} : (Outline.object ms).value? 126 = some v →
    Requested c [.object ms] document → Request.reader.decode document = .ok r → ∀ key,
    r.args.get? key = (values key ms).getLast?.bind (·.value? 125)
  absent {c frame document} : Framed c [] frame → Requested c [] document →
    (∃ id, accept .json frame = .ok (id, ⟨c, .empty⟩)) ∧
      Request.reader.decode document = .ok ⟨c, .empty⟩
  refused {c x v frame document} : x.value? 126 = some v → Framed c [x] frame →
    Requested c [x] document → (∀ id r, accept .json frame ≠ .ok (id, r)) →
    ∀ r, Request.reader.decode document ≠ .ok r
  written {v : Json} : v.Ordered → v.Integral → v.depth ≤ 126 →
    ∃ x : Outline, x.IsDocument v.bytes ∧ x.value? 126 = some v
  carried {x document} (c : Command) : x.IsDocument document →
    (∃ frame, Framed c [x] frame) ∧ ∃ document, Requested c [x] document

theorem routes_agree : RoutesAgree where
  envelope {c x v frame} value framed := by
    constructor
    · rintro ⟨id, r, accepted⟩
      obtain ⟨-, made⟩ := (accept_eq_ok_iff value framed).1 ⟨id, accepted⟩
      exact (ofJson_eq_ok_iff.1 made).imp And.left fun object => ⟨_, object⟩
    · intro document
      obtain ⟨a, made⟩ : ∃ a, ofJson v = .ok a := by
        obtain rfl | ⟨m, rfl⟩ := document
        · exact ⟨.empty, rfl⟩
        · exact ⟨⟨m⟩, rfl⟩
      obtain ⟨id, accepted⟩ := (accept_eq_ok_iff value framed (r := ⟨c, a⟩)).2 ⟨rfl, made⟩
      exact ⟨id, _, accepted⟩
  invalid {c x v frame e} value framed found := by
    obtain ⟨id, accepted⟩ := accept_of_framed framed (.inr ⟨x, rfl, value⟩)
    rw [accepted, found]
    rfl
  request {c x v document} value requested := by
    constructor
    · rintro ⟨r, decoded⟩
      exact ⟨_, ((decode_eq_ok_iff value requested).1 decoded).2⟩
    · rintro ⟨m, object⟩
      exact ⟨⟨c, ⟨m⟩⟩, (decode_eq_ok_iff value requested).2 ⟨rfl, object⟩⟩
  agree {c x v frame document id r r'} value framed requested accepted decoded := by
    obtain ⟨command, made⟩ := (accept_eq_ok_iff value framed).1 ⟨id, accepted⟩
    obtain ⟨command', rfl⟩ := (decode_eq_ok_iff value requested).1 decoded
    have same : r'.args = r.args := Except.ok.inj ((ofJson_toJson _).symm.trans made)
    exact ⟨command, command', same.symm, made, by rw [text, same], ordered_of_value? value⟩
  last {c ms v document r} value requested decoded key := by
    obtain ⟨-, rfl⟩ := (decode_eq_ok_iff value requested).1 decoded
    obtain ⟨m, members, same⟩ := Option.map_eq_some_iff.1 value
    obtain rfl : m = r.args.members := Json.object.inj same
    rw [get?, get?_of_members? members]
    cases (values key ms).getLast? <;> rfl
  absent {c frame document} framed requested := by
    obtain ⟨id, accepted⟩ := accept_of_framed framed (v := .null) (.inl ⟨rfl, rfl⟩)
    obtain ⟨y, spelled, carries⟩ := requested
    exact ⟨⟨id, accepted⟩, (Request.decode_of_carries spelled carries).2 ⟨rfl, .inl ⟨rfl, rfl⟩⟩⟩
  refused {c x v frame document} value framed requested refused r decoded := by
    obtain ⟨command, rfl⟩ := (decode_eq_ok_iff value requested).1 decoded
    obtain ⟨id, accepted⟩ := (accept_eq_ok_iff value framed).2 ⟨command, ofJson_toJson _⟩
    exact refused id r accepted
  written ordered integral fits := exists_text ordered integral fits
  carried {x document} c spelled := by
    obtain ⟨rest, spells, -⟩ := spelled
    obtain ⟨y, request, spelled, carries⟩ := Request.exists_carries c ⟨_, _, spells⟩
    exact ⟨exists_framed c ⟨_, _, spells⟩, request, y, spelled, carries⟩

def twice : Outline :=
  .object [(ascii ['k'], .scalar (ascii ['1'])), (ascii ['k'], .array [.scalar (ascii ['2'])])]

theorem routes_agree_on_repeated_key :
    ∃ frame request id a, Framed .reload [twice] frame ∧ Requested .reload [twice] request ∧
      accept .json frame = .ok (id, ⟨.reload, a⟩) ∧
      Request.reader.decode request = .ok ⟨.reload, a⟩ ∧
      a.get? "k" = some (.array [.integer 2]) := by
  have spelled : twice.IsDocument (twice.spaced []) :=
    ⟨[], ⟨_, rfl, _, _, _, rfl, ⟨rfl, _, rfl, rfl⟩, ⟨rfl, rfl⟩, _, _, _, rfl, ⟨rfl, _, rfl, rfl⟩,
      ⟨_, rfl, _, _, rfl, ⟨rfl, rfl⟩, rfl⟩, rfl⟩, rfl⟩
  have value : twice.value? 126 = some (.object [("k", .array [.integer 2])]) := rfl
  obtain ⟨⟨frame, framed⟩, request, requested⟩ := routes_agree.carried .reload spelled
  obtain ⟨id, ⟨command, a⟩, accepted⟩ :=
    (routes_agree.envelope value framed).2 (.inr ⟨_, rfl⟩)
  obtain ⟨⟨command', a'⟩, decoded⟩ := (routes_agree.request value requested).2 ⟨_, rfl⟩
  obtain ⟨rfl, rfl, rfl, -⟩ := routes_agree.agree value framed requested accepted decoded
  exact ⟨frame, request, id, a, framed, requested, accepted, decoded,
    routes_agree.last value requested decoded "k"⟩

end Args

end Lifecycle
