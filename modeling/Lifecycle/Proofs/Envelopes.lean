import Lifecycle.Proofs.Records
import Lifecycle.Wire

/-! What an envelope is decoded from. Main statement: the members of an object alone decide,
whatever their order, the blanks between them and further members among them; an array of the
same values is decoded to the same envelope; and a known key given twice, no identifier or no
label, or one that is not a text are refused. -/

namespace Lifecycle

open Scan Numeral Outline

variable {α β : Type}

namespace Outline

def values (key : String) (ms : List (Bytes × Outline)) : List Outline :=
  (ms.filter fun m => text? m.1 == some key).map (·.2)

theorem values_cons {key other : String} {k : Bytes} (text : text? k = some other) (x : Outline)
    (ms : List (Bytes × Outline)) :
    values key ((k, x) :: ms) = if other = key then x :: values key ms else values key ms := by
  by_cases same : other = key <;> simp [values, text, same]

def Keyed (ms : List (Bytes × Outline)) : Prop := ∀ m ∈ ms, ∃ key, text? m.1 = some key

theorem keyed_cons {key : String} {k : Bytes} (text : text? k = some key) (x : Outline)
    (ms : List (Bytes × Outline)) : Keyed ((k, x) :: ms) ↔ Keyed ms :=
  ⟨fun keyed => (List.forall_mem_cons.1 keyed).2,
    fun keyed => List.forall_mem_cons.2 ⟨⟨key, text⟩, keyed⟩⟩

theorem values_append (key : String) (ms ns : List (Bytes × Outline)) :
    values key (ms ++ ns) = values key ms ++ values key ns := by
  simp [values]

theorem whole_of_mem_values {key : String} {ms : List (Bytes × Outline)}
    (whole : ∀ m ∈ ms, m.2.Whole) {x : Outline} (given : x ∈ values key ms) : x.Whole := by
  obtain ⟨m, mem, rfl⟩ := List.mem_map.1 given
  exact whole m (List.mem_filter.1 mem).1

theorem values_perm (key : String) {ms ns : List (Bytes × Outline)} (perm : ms.Perm ns) :
    (values key ms).Perm (values key ns) := (perm.filter _).map _

end Outline

namespace Record

variable {r : Record α} {room : Nat} {seen : List String} {draft made : α} {k : Bytes}
  {key : String} {x : Outline} {ms : List (Bytes × Outline)}

theorem takes_nil : r.Takes room seen draft [] made ↔ r.missing? seen = none ∧ made = draft := by
  constructor
  · rintro ⟨⟩
    exact ⟨‹_›, rfl⟩
  · rintro ⟨complete, rfl⟩
    exact .done complete

theorem find?_eq_none {r : Record α} {key : String} (unknown : key ∉ r.names) :
    r.fields.find? (·.name == key) = none := by
  rw [List.find?_eq_none]
  intro f mem same
  exact unknown (List.mem_map.2 ⟨f, mem, eq_of_beq same⟩)

theorem text_of_takes (takes : r.Takes room seen draft ((k, x) :: ms) made) :
    ∃ key, text? k = some key := by
  cases takes with
  | field text => exact ⟨_, text⟩
  | other text => exact ⟨_, text⟩

theorem takes_known (text : text? k = some key) {f : Field α}
    (known : r.fields.find? (·.name == key) = some f) :
    r.Takes room seen draft ((k, x) :: ms) made ↔ key ∉ seen ∧ ∃ set,
      Reader.Means f.read room x set ∧ r.Takes room (key :: seen) (set draft) ms made := by
  constructor
  · intro takes
    cases takes with
    | field text' known' fresh means more =>
      cases text.symm.trans text'
      cases known.symm.trans known'
      exact ⟨fresh, _, means, more⟩
    | other text' unknown =>
      cases text.symm.trans text'
      cases known.symm.trans unknown
  · rintro ⟨fresh, set, means, more⟩
    exact .field text known fresh means more

theorem takes_field {name : String} {reader : Reader β} {set : β → α → α} {presence : Presence}
    (text : text? k = some key)
    (known : r.fields.find? (·.name == key) = some (field name reader set presence)) :
    r.Takes room seen draft ((k, x) :: ms) made ↔ key ∉ seen ∧ ∃ b,
      reader.Means room x b ∧ r.Takes room (key :: seen) (set b draft) ms made := by
  rw [takes_known text known]
  constructor
  · rintro ⟨fresh, _, told, more⟩
    obtain ⟨b, means, rfl⟩ := means_field.1 told
    exact ⟨fresh, b, means, more⟩
  · rintro ⟨fresh, b, means, more⟩
    exact ⟨fresh, _, means_field.2 ⟨b, means, rfl⟩, more⟩

theorem takes_unknown (text : text? k = some key)
    (unknown : r.fields.find? (·.name == key) = none) (unclosed : r.closed = false) :
    r.Takes room seen draft ((k, x) :: ms) made ↔ r.Takes room seen draft ms made := by
  constructor
  · intro takes
    cases takes with
    | field text' known =>
      cases text.symm.trans text'
      cases unknown.symm.trans known
    | other _ _ _ more => exact more
  · exact .other text unknown unclosed

/-- How the values that are given for a field change it. If it has been seen there may be no
more. Else there may be one, and there is none only if the field is not required. -/
def Slot (means : Outline → β → Prop) (required seen : Prop) (xs : List Outline) (old new : β) :
    Prop :=
  xs = [] ∧ new = old ∧ (required → seen) ∨ ¬ seen ∧ ∃ x, xs = [x] ∧ means x new

variable {means : Outline → β → Prop} {required been : Prop} {xs : List Outline} {old new : β}

theorem slot_nil : Slot means required been [] old new ↔ new = old ∧ (required → been) := by
  simp [Slot]

theorem slot_cons : Slot means required been (x :: xs) old new ↔
    ¬ been ∧ ∃ v, means x v ∧ Slot means required True xs v new := by
  simp only [Slot, List.cons_ne_nil, false_and, false_or, List.cons.injEq, not_true_eq_false,
    or_false, implies_true, and_true]
  constructor
  · rintro ⟨fresh, y, ⟨rfl, none⟩, means⟩
    exact ⟨fresh, new, means, none, rfl⟩
  · rintro ⟨fresh, v, means, none, rfl⟩
    exact ⟨fresh, x, ⟨rfl, none⟩, means⟩

theorem slot_required (fresh : ¬ been) :
    Slot means True been xs old new ↔ ∃ x, xs = [x] ∧ means x new := by
  simp [Slot, fresh]

theorem slot_optional (fresh : ¬ been) : Slot means False been xs old new ↔
    xs = [] ∧ new = old ∨ ∃ x, xs = [x] ∧ means x new := by
  simp [Slot, fresh]

end Record

namespace Envelope

open Record

theorem steady : ∀ f ∈ record.fields, Reader.Steady f.read 126 := by
  have string := (Reader.string_means 126).1
  have value := (Reader.value_means 126).1
  simp only [record, List.forall_mem_cons]
  exact ⟨steady_field string, steady_field string, steady_field value, nofun⟩

/-- What an object tells of an envelope: each key is a text, and the values of the known ones
change the three fields. -/
structure Tells (seen : List String) (draft : Envelope) (ms : List (Bytes × Outline))
    (made : Envelope) : Prop where
  keyed : Keyed ms
  id : Slot (Reader.Means Reader.string 126) True ("id" ∈ seen) (values "id" ms) draft.id made.id
  cmd : Slot (Reader.Means Reader.string 126) True ("cmd" ∈ seen) (values "cmd" ms) draft.cmd
    made.cmd
  args : Slot (Reader.Means Reader.value 126) False ("args" ∈ seen) (values "args" ms) draft.args
    made.args

theorem mem_names {key : String} :
    key ∈ record.names ↔ key = "id" ∨ key = "cmd" ∨ key = "args" := by
  change key ∈ ["id", "cmd", "args"] ↔ _
  simp

theorem missing?_eq_none_iff {seen : List String} :
    record.missing? seen = none ↔ "id" ∈ seen ∧ "cmd" ∈ seen := by
  simp [missing?, record, field]

section

variable {seen : List String} {draft made : Envelope} {k : Bytes} {x : Outline}
  {ms : List (Bytes × Outline)}

theorem tells_nil : Tells seen draft [] made ↔ ("id" ∈ seen ∧ "cmd" ∈ seen) ∧ made = draft := by
  obtain ⟨id, cmd, args⟩ := draft
  constructor
  · rintro ⟨-, id, cmd, args⟩
    obtain ⟨rfl, identified⟩ := slot_nil.1 id
    obtain ⟨rfl, labelled⟩ := slot_nil.1 cmd
    obtain ⟨rfl, -⟩ := slot_nil.1 args
    exact ⟨⟨identified trivial, labelled trivial⟩, rfl⟩
  · rintro ⟨⟨identified, labelled⟩, rfl⟩
    exact ⟨nofun, slot_nil.2 ⟨rfl, fun _ => identified⟩, slot_nil.2 ⟨rfl, fun _ => labelled⟩,
      slot_nil.2 ⟨rfl, nofun⟩⟩

theorem tells_iff : Tells seen draft ms made ↔ Keyed ms ∧
    Slot (Reader.Means Reader.string 126) True ("id" ∈ seen) (values "id" ms) draft.id made.id ∧
    Slot (Reader.Means Reader.string 126) True ("cmd" ∈ seen) (values "cmd" ms) draft.cmd
      made.cmd ∧
    Slot (Reader.Means Reader.value 126) False ("args" ∈ seen) (values "args" ms) draft.args
      made.args :=
  ⟨fun tells => ⟨tells.keyed, tells.id, tells.cmd, tells.args⟩,
    fun ⟨keyed, id, cmd, args⟩ => ⟨keyed, id, cmd, args⟩⟩

theorem tells_id (text : text? k = some "id") : Tells seen draft ((k, x) :: ms) made ↔
    "id" ∉ seen ∧ ∃ t, Reader.Means Reader.string 126 x t ∧
      Tells ("id" :: seen) { draft with id := t } ms made := by
  simp only [tells_iff, keyed_cons text, values_cons text, slot_cons, List.mem_cons,
    String.reduceEq, if_true, if_false, true_or, false_or]
  constructor
  · rintro ⟨keyed, ⟨fresh, t, means, id⟩, cmd, args⟩
    exact ⟨fresh, t, means, keyed, id, cmd, args⟩
  · rintro ⟨fresh, t, means, keyed, id, cmd, args⟩
    exact ⟨keyed, ⟨fresh, t, means, id⟩, cmd, args⟩

theorem tells_cmd (text : text? k = some "cmd") : Tells seen draft ((k, x) :: ms) made ↔
    "cmd" ∉ seen ∧ ∃ t, Reader.Means Reader.string 126 x t ∧
      Tells ("cmd" :: seen) { draft with cmd := t } ms made := by
  simp only [tells_iff, keyed_cons text, values_cons text, slot_cons, List.mem_cons,
    String.reduceEq, if_true, if_false, true_or, false_or]
  constructor
  · rintro ⟨keyed, id, ⟨fresh, t, means, cmd⟩, args⟩
    exact ⟨fresh, t, means, keyed, id, cmd, args⟩
  · rintro ⟨fresh, t, means, keyed, id, cmd, args⟩
    exact ⟨keyed, id, ⟨fresh, t, means, cmd⟩, args⟩

theorem tells_args (text : text? k = some "args") : Tells seen draft ((k, x) :: ms) made ↔
    "args" ∉ seen ∧ ∃ v, Reader.Means Reader.value 126 x v ∧
      Tells ("args" :: seen) { draft with args := v } ms made := by
  simp only [tells_iff, keyed_cons text, values_cons text, slot_cons, List.mem_cons,
    String.reduceEq, if_true, if_false, true_or, false_or]
  constructor
  · rintro ⟨keyed, id, cmd, fresh, v, means, args⟩
    exact ⟨fresh, v, means, keyed, id, cmd, args⟩
  · rintro ⟨fresh, v, means, keyed, id, cmd, args⟩
    exact ⟨keyed, id, cmd, fresh, v, means, args⟩

theorem tells_other {key : String} (text : text? k = some key) (unknown : key ∉ record.names) :
    Tells seen draft ((k, x) :: ms) made ↔ Tells seen draft ms made := by
  obtain ⟨id, cmd, args⟩ : key ≠ "id" ∧ key ≠ "cmd" ∧ key ≠ "args" := by
    simpa only [mem_names, not_or] using unknown
  simp only [tells_iff, keyed_cons text, values_cons text, id, cmd, args, if_false]

theorem takes_iff_tells : record.Takes 126 seen draft ms made ↔ Tells seen draft ms made := by
  induction ms generalizing seen draft with
  | nil => rw [takes_nil, missing?_eq_none_iff, tells_nil]
  | cons m ms ih =>
    obtain ⟨k, x⟩ := m
    cases text : text? k with
    | none =>
      refine ⟨fun takes => ?_, fun tells => ?_⟩
      · obtain ⟨key, text'⟩ := text_of_takes takes
        cases text.symm.trans text'
      · obtain ⟨key, text'⟩ := tells.keyed (k, x) List.mem_cons_self
        cases text.symm.trans text'
    | some key =>
      by_cases known : key ∈ record.names
      · rcases mem_names.1 known with rfl | rfl | rfl
        · rw [takes_field text rfl, tells_id text]
          simp only [ih]
        · rw [takes_field text rfl, tells_cmd text]
          simp only [ih]
        · rw [takes_field text rfl, tells_args text]
          simp only [ih]
      · rw [takes_unknown text (find?_eq_none known) rfl, tells_other text known, ih]

end

structure Envelops (ms : List (Bytes × Outline)) (e : Envelope) : Prop where
  keyed : Keyed ms
  id : ∃ x, values "id" ms = [x] ∧ x.value? 126 = some (.string e.id)
  cmd : ∃ x, values "cmd" ms = [x] ∧ x.value? 126 = some (.string e.cmd)
  args : values "args" ms = [] ∧ e.args = .null ∨
    ∃ x, values "args" ms = [x] ∧ x.value? 126 = some e.args

theorem tells_blank_iff {ms : List (Bytes × Outline)} {e : Envelope}
    (whole : ∀ m ∈ ms, m.2.Whole) : Tells [] record.blank ms e ↔ Envelops ms e := by
  have whole {key : String} {x : Outline} (one : values key ms = [x]) : x.Whole :=
    whole_of_mem_values whole (one ▸ List.mem_singleton_self x)
  have text (key t : String) :
      (∃ x, values key ms = [x] ∧ Reader.Means Reader.string 126 x t) ↔
        ∃ x, values key ms = [x] ∧ x.value? 126 = some (.string t) :=
    exists_congr fun x => and_congr_right fun one => (Reader.string_means 126).2 (whole one)
  have value (key : String) (v : Json) :
      (∃ x, values key ms = [x] ∧ Reader.Means Reader.value 126 x v) ↔
        ∃ x, values key ms = [x] ∧ x.value? 126 = some v :=
    exists_congr fun x => and_congr_right fun one => (Reader.value_means 126).2 (whole one)
  have fresh (key : String) : key ∉ ([] : List String) := List.not_mem_nil
  rw [tells_iff, slot_required (fresh _), slot_required (fresh _), slot_optional (fresh _), text,
    text, value]
  exact ⟨fun ⟨keyed, id, cmd, args⟩ => ⟨keyed, id, cmd, args⟩,
    fun envelops => ⟨envelops.keyed, envelops.id, envelops.cmd, envelops.args⟩⟩

theorem whole_of_isDocument {ms : List (Bytes × Outline)} {document : Bytes}
    (spelled : (object ms).IsDocument document) : ∀ m ∈ ms, Inside m.1 ∧ m.2.Whole := by
  obtain ⟨rest, ⟨r, -, members⟩, -⟩ := spelled
  exact whole_of_members members

theorem decode_object {ms : List (Bytes × Outline)} {document : Bytes}
    (spelled : (object ms).IsDocument document) {e : Envelope} :
    reader.decode document = .ok e ↔ Envelops ms e := by
  rw [reader, decode_eq_ok_iff steady,
    ← tells_blank_iff fun m mem => (whole_of_isDocument spelled m mem).2, ← takes_iff_tells]
  constructor
  · rintro ⟨x, spelled', makes⟩
    obtain rfl := spelled.unique spelled'
    exact makes
  · exact fun takes => ⟨object ms, spelled, takes⟩

theorem decode_array {xs : List Outline} {document : Bytes}
    (spelled : (array xs).IsDocument document) {e : Envelope}
    (takes : TakesElements 126 record.fields record.blank xs e) :
    reader.decode document = .ok e :=
  (decode_eq_ok_iff steady).2 ⟨array xs, spelled, takes⟩

theorem refused {document : Bytes} (never : ∀ e, reader.decode document ≠ .ok e) :
    ∃ fault, reader.decode document = .error fault := by
  cases outcome : reader.decode document with
  | ok e => exact absurd outcome (never e)
  | error fault => exact ⟨fault, rfl⟩

/-- A member that may stand among the known ones: its key is some other text, and its value can
be passed over. -/
def Further (m : Bytes × Outline) : Prop :=
  (∃ key, text? m.1 = some key ∧ key ∉ record.names) ∧
    ∃ v, Json.skip v = .ok [] ∧ m.2.Spells v []

theorem keyed_of_further {ms : List (Bytes × Outline)} (further : ∀ m ∈ ms, Further m) :
    Keyed ms := by
  intro m mem
  obtain ⟨⟨key, text, -⟩, -⟩ := further m mem
  exact ⟨key, text⟩

theorem values_of_further {ms : List (Bytes × Outline)} (further : ∀ m ∈ ms, Further m)
    {key : String} (known : key ∈ record.names) : values key ms = [] := by
  rw [values, List.map_eq_nil_iff, List.filter_eq_nil_iff]
  intro m mem same
  obtain ⟨⟨other, text, unknown⟩, -⟩ := further m mem
  rw [text, beq_iff_eq, Option.some.injEq] at same
  exact unknown (same ▸ known)

theorem Envelops.perm {ms extra ms' : List (Bytes × Outline)} {e : Envelope}
    (envelops : Envelops ms e) (further : ∀ m ∈ extra, Further m)
    (perm : ms'.Perm (ms ++ extra)) : Envelops ms' e := by
  have same {key : String} (known : key ∈ record.names) :
      (values key ms').Perm (values key ms) := by
    have whole := values_perm key perm
    rwa [values_append, values_of_further further known, List.append_nil] at whole
  have one {key : String} (known : key ∈ record.names) {x : Outline} (one : values key ms = [x]) :
      values key ms' = [x] := (one ▸ same known).eq_singleton
  refine ⟨fun m mem => ?_, ?_, ?_, ?_⟩
  · rcases List.mem_append.1 (perm.mem_iff.1 mem) with old | new
    · exact envelops.keyed m old
    · exact keyed_of_further further m new
  · exact envelops.id.imp fun x => .imp_left (one (by decide))
  · exact envelops.cmd.imp fun x => .imp_left (one (by decide))
  · refine envelops.args.imp (.imp_left fun none => ?_)
      (.imp fun x => .imp_left (one (by decide)))
    exact (none ▸ same (by decide)).eq_nil

def DecodedTo (x : Outline) (e : Envelope) : Prop :=
  (∀ gap : Bytes, (∀ b ∈ gap, isSpace b) → x.IsDocument (x.spaced gap)) ∧
    ∀ document, x.IsDocument document → reader.decode document = .ok e

def IsText (x : Outline) : Prop := ∃ room t, x.value? room = some (.string t)

/-- The members alone decide what a document in object form is decoded to, and whether it is. -/
structure MembersDecide : Prop where
  outlined {document e} : reader.decode document = .ok e →
    ∃! x : Outline, x.IsDocument document
  decoded {ms document e} : (Outline.object ms).IsDocument document →
    (reader.decode document = .ok e ↔ Envelops ms e)
  object {ms further ms' document e} : (Outline.object ms).IsDocument document →
    reader.decode document = .ok e → (∀ m ∈ further, Further m) →
    List.Perm ms' (ms ++ further) → DecodedTo (.object ms') e
  array {ms document e} : (Outline.object ms).IsDocument document →
    reader.decode document = .ok e → ∃ id cmd, values "id" ms = [id] ∧ values "cmd" ms = [cmd] ∧
      (values "args" ms = [] ∧ DecodedTo (.array [id, cmd]) e ∨
        ∃ args, values "args" ms = [args] ∧ DecodedTo (.array [id, cmd, args]) e)
  repeated {ms document key} : (Outline.object ms).IsDocument document →
    key ∈ ["id", "cmd", "args"] → 1 < (values key ms).length →
    ∃ fault, reader.decode document = .error fault
  lacking {ms document key} : (Outline.object ms).IsDocument document → key ∈ ["id", "cmd"] →
    values key ms = [] → ∃ fault, reader.decode document = .error fault
  untyped {ms document key x} : (Outline.object ms).IsDocument document → key ∈ ["id", "cmd"] →
    x ∈ values key ms → ¬ IsText x → ∃ fault, reader.decode document = .error fault

theorem decodedTo_array {xs : List Outline} {e : Envelope} (whole : ∀ x ∈ xs, x.Whole)
    (takes : TakesElements 126 record.fields record.blank xs e) : DecodedTo (.array xs) e :=
  ⟨fun _ blank => isDocument_array blank whole, fun _ spelled => decode_array spelled takes⟩

section

variable {ms : List (Bytes × Outline)} {e : Envelope} {key : String}

theorem Envelops.texts (envelops : Envelops ms e) (required : key ∈ ["id", "cmd"]) :
    ∃ x, values key ms = [x] ∧ IsText x := by
  simp only [List.mem_cons, List.not_mem_nil, or_false] at required
  rcases required with rfl | rfl
  · obtain ⟨x, one, value⟩ := envelops.id
    exact ⟨x, one, 126, e.id, value⟩
  · obtain ⟨x, one, value⟩ := envelops.cmd
    exact ⟨x, one, 126, e.cmd, value⟩

theorem Envelops.length_le (envelops : Envelops ms e) (known : key ∈ record.names) :
    (values key ms).length ≤ 1 := by
  rcases mem_names.1 known with rfl | rfl | rfl
  · obtain ⟨x, one, -⟩ := envelops.id
    simp [one]
  · obtain ⟨x, one, -⟩ := envelops.cmd
    simp [one]
  · obtain ⟨none, -⟩ | ⟨x, one, -⟩ := envelops.args
    · simp [none]
    · simp [one]

theorem Envelops.array (envelops : Envelops ms e) (whole : ∀ m ∈ ms, m.2.Whole) :
    ∃ id cmd, values "id" ms = [id] ∧ values "cmd" ms = [cmd] ∧
      (values "args" ms = [] ∧ DecodedTo (.array [id, cmd]) e ∨
        ∃ args, values "args" ms = [args] ∧ DecodedTo (.array [id, cmd, args]) e) := by
  have whole {key : String} {x : Outline} (one : values key ms = [x]) : x.Whole :=
    whole_of_mem_values whole (one ▸ List.mem_singleton_self x)
  obtain ⟨id, oneId, valueId⟩ := envelops.id
  obtain ⟨cmd, oneCmd, valueCmd⟩ := envelops.cmd
  have meansId := ((Reader.string_means 126).2 (whole oneId)).2 valueId
  have meansCmd := ((Reader.string_means 126).2 (whole oneCmd)).2 valueCmd
  refine ⟨id, cmd, oneId, oneCmd, ?_⟩
  obtain ⟨none, blank⟩ | ⟨args, oneArgs, valueArgs⟩ := envelops.args
  · refine .inl ⟨none, decodedTo_array (by simp [whole oneId, whole oneCmd]) ?_⟩
    have made : e = ⟨e.id, e.cmd, .null⟩ := by
      obtain ⟨id, cmd, args⟩ := e
      exact congrArg _ blank
    rw [made]
    exact .given meansId (.given meansCmd (.absent rfl .done))
  · have meansArgs := ((Reader.value_means 126).2 (whole oneArgs)).2 valueArgs
    refine .inr ⟨args, oneArgs,
      decodedTo_array (by simp [whole oneId, whole oneCmd, whole oneArgs]) ?_⟩
    exact .given meansId (.given meansCmd (.given meansArgs .done))

end

theorem members_decide : MembersDecide where
  outlined decoded := by
    obtain ⟨x, spelled, -⟩ := (decode_eq_ok_iff steady).1 decoded
    exact ⟨x, spelled, fun y spelled' => spelled'.unique spelled⟩
  decoded spelled := decode_object spelled
  object {ms further ms' document e} spelled decoded additional perm := by
    have envelops := ((decode_object spelled).1 decoded).perm additional perm
    refine ⟨fun gap blank => isDocument_object blank fun m mem => ?_,
      fun document' spelled' => (decode_object spelled').2 envelops⟩
    rcases List.mem_append.1 (perm.mem_iff.1 mem) with old | new
    · exact whole_of_isDocument spelled m old
    · obtain ⟨⟨key, text, -⟩, v, -, spells⟩ := additional m new
      exact ⟨inside_of_text? text, v, [], spells⟩
  array spelled decoded := ((decode_object spelled).1 decoded).array fun m mem =>
    (whole_of_isDocument spelled m mem).2
  repeated spelled known twice := by
    refine refused fun e decoded => ?_
    have once := ((decode_object spelled).1 decoded).length_le known
    omega
  lacking spelled required none := by
    refine refused fun e decoded => ?_
    obtain ⟨x, one, -⟩ := ((decode_object spelled).1 decoded).texts required
    rw [none] at one
    cases one
  untyped spelled required given other := by
    refine refused fun e decoded => ?_
    obtain ⟨x, one, text⟩ := ((decode_object spelled).1 decoded).texts required
    rw [one, List.mem_singleton] at given
    exact other (given ▸ text)

def ascii (cs : List Char) : Bytes := cs.map octet

def sample : List (Bytes × Outline) :=
  [(ascii ['i', 'd'], .scalar (ascii ['"', '7', '"'])),
    (ascii ['c', 'm', 'd'], .scalar (ascii ['"', 's', '"']))]

/-- A member of another key. -/
def remark : Bytes × Outline := (ascii ['x'], .array [.object [], .scalar (ascii ['1', 'e', '9'])])

theorem sample_decoded_anyhow :
    reader.decode ((Outline.object sample).spaced []) = .ok ⟨"7", "s", .null⟩ ∧
    reader.decode ((Outline.object (remark :: sample.reverse)).spaced (ascii [' ', '\n'])) =
      .ok ⟨"7", "s", .null⟩ ∧
    reader.decode ((Outline.array (sample.map (·.2))).spaced []) = .ok ⟨"7", "s", .null⟩ ∧
    ∃ fault, reader.decode ((Outline.object (sample ++ sample)).spaced []) = .error fault := by
  have decoded : reader.decode ((Outline.object sample).spaced []) = .ok ⟨"7", "s", .null⟩ := rfl
  have spelled : (Outline.object sample).IsDocument ((Outline.object sample).spaced []) :=
    ⟨[], ⟨_, rfl, _, _, _, rfl, ⟨rfl, _, rfl, rfl⟩, ⟨rfl, rfl⟩, _, _, _, rfl,
      ⟨rfl, _, rfl, rfl⟩, ⟨rfl, rfl⟩, rfl⟩, rfl⟩
  refine ⟨decoded, ?_, ?_, ?_⟩
  · have further : Further remark := ⟨⟨"x", rfl, by decide⟩, remark.2.spaced [], rfl,
      ⟨_, rfl, _, _, rfl, ⟨_, rfl, rfl⟩, _, _, rfl, ⟨rfl, rfl⟩, rfl⟩⟩
    have perm : (remark :: sample.reverse).Perm (sample ++ [remark]) :=
      ((List.reverse_perm sample).cons remark).trans (List.perm_append_singleton ..).symm
    have again := members_decide.object spelled decoded (by simpa using further) perm
    have blank : ∀ b ∈ ascii [' ', '\n'], isSpace b :=
      List.forall_mem_cons.2 ⟨rfl, List.forall_mem_cons.2 ⟨rfl, List.forall_mem_nil _⟩⟩
    exact again.2 _ (again.1 _ blank)
  · obtain ⟨id, cmd, oneId, oneCmd, ⟨-, listed⟩ | ⟨args, some, -⟩⟩ :=
      members_decide.array spelled decoded
    · obtain rfl := (List.cons.inj oneId).1
      obtain rfl := (List.cons.inj oneCmd).1
      exact listed.2 _ (listed.1 [] nofun)
    · cases some
  · have whole : ∀ m ∈ sample ++ sample, Inside m.1 ∧ m.2.Whole := by
      simpa using whole_of_isDocument spelled
    have spelled : (Outline.object (sample ++ sample)).IsDocument
        ((Outline.object (sample ++ sample)).spaced []) := isDocument_object (by simp) whole
    have known : "id" ∈ ["id", "cmd", "args"] := List.mem_cons_self
    exact members_decide.repeated spelled known (by decide)

end Envelope

end Lifecycle
