import Lifecycle.Proofs.Documents
import Lifecycle.Router

/-! Everything that travels is read back from its document. Main statement: a reply, a result, a
status and a configuration always are, and an envelope or a request is when its arguments are
nested at most 126 deep; beyond that its document can still be written but is refused. -/

namespace Lifecycle

open Json Scan Numeral Text.Utf8

variable {α β : Type}

def Gives (r : Reader α) (room : Nat) (v : Json) (outcome : Except Fault α) : Prop :=
  ∀ s, Stops s → r room (v.bytes ++ s) = outcome.map fun a => (a, s)

theorem Gives.alone {r : Reader α} {room : Nat} {v : Json} {outcome : Except Fault α}
    (gives : Gives r room v outcome) : r room v.bytes = outcome.map fun a => (a, []) := by
  have read := gives [] (by rintro b ⟨⟩)
  rwa [List.append_nil] at read

theorem Gives.decode {r : Reader α} {v : Json} {outcome : Except Fault α}
    (gives : Gives r nestingLimit v outcome) : r.decode v.bytes = outcome := by
  rw [Reader.decode, gives.alone]
  cases outcome <;> rfl

namespace Reader

theorem gives_value {v : Json} (ordered : v.Ordered) (integral : v.Integral) (room : Nat) :
    Gives value room v (if v.depth ≤ room then .ok v else .error .malformed) := by
  intro s stops
  have read := readValue_bytes ordered integral (fuelFor (v.bytes ++ s))
    (by rw [fuelFor, List.length_append]; omega) room stops
  refine read.trans ?_
  split <;> rfl

theorem gives_string (room : Nat) (t : String) : Gives string room (.string t) (.ok t) := by
  intro s _
  have written : (Json.string t).bytes ++ s = _ := stringBytes_append t s
  rw [written, string, skipSpace_of_leads ⟨_, _, rfl, by decide, by decide⟩]
  exact (if_pos rfl).trans (string_written t s)

theorem gives_boolean (room : Nat) (b : Bool) : Gives boolean room (.bool b) (.ok b) := by
  intro s _
  cases b <;> rfl

theorem gives_size (room : Nat) {n : Nat} (word : n < wordLimit) :
    Gives size room (.integer n) (.ok n) := by
  intro s stops
  have read := read_natural word stops
  have digits : (Json.integer n).bytes = (digitChars n).map octet := by
    rw [bytes_integer, if_neg (by omega), Int.natAbs_natCast]
  obtain ⟨b, r, same, digit⟩ := digits_begin n
  rw [same, List.cons_append] at read
  rw [digits, same, List.cons_append, size,
    skipSpace_of_leads ⟨b, r ++ s, rfl, isSpace_of_isDigit digit, isDigit_ne digit (by decide)⟩]
  dsimp only
  rw [if_neg (isDigit_ne digit (by decide)), if_pos digit, read]
  rfl

theorem gives_choice {all : List α} {name : α → String} {a : α}
    (known : all.find? (name · == name a) = some a) (room : Nat) :
    Gives (choice all name) room (.string (name a)) (.ok a) := by
  intro s _
  have written : (Json.string (name a)).bytes ++ s = _ := stringBytes_append (name a) s
  rw [written, choice, skipSpace_of_leads ⟨_, _, rfl, by decide, by decide⟩]
  dsimp only
  rw [if_pos rfl, string_written]
  simp only [bind, Except.bind, known]
  rfl

theorem gives_none (r : Reader α) (room : Nat) : Gives (optional r) room .null (.ok none) :=
  fun _ _ => rfl

theorem gives_some {r : Reader α} {room : Nat} {t : String} {a : α}
    (gives : Gives r room (.string t) (.ok a)) :
    Gives (optional r) room (.string t) (.ok (some a)) := by
  intro s stops
  have read := gives s stops
  have written : (Json.string t).bytes ++ s = _ := stringBytes_append t s
  rw [written] at read ⊢
  rw [optional, skipSpace_of_leads ⟨_, _, rfl, by decide, by decide⟩]
  dsimp only
  rw [if_neg (by decide), read]
  rfl

theorem gives_text (room : Nat) (t : Option String) :
    Gives (optional string) room (Json.ofText? t) (.ok t) := by
  cases t with
  | none => exact gives_none string room
  | some t => exact gives_some (gives_string room t)

end Reader

theorem Args.gives {ms : Members Json} (ordered : (object ms).Ordered)
    (integral : (object ms).Integral) (room : Nat) : Gives Args.reader room (object ms)
      (if (object ms).depth ≤ room then .ok ⟨ms⟩ else .error .malformed) := by
  intro s stops
  cases room with
  | zero => rfl
  | succ room =>
    have members := Json.readMembers_roster ordered.2 integral true [] ordered.1
      (fuelFor (roster true ms ++ s)) (by rw [fuelFor, List.length_append]; omega) room s
    have inside : (object ms).depth ≤ room + 1 ↔ membersDepth ms ≤ room := Nat.succ_le_succ_iff
    change ((Json.readMembers (fuelFor (roster true ms ++ s)) room true []
      (roster true ms ++ s) >>= _) >>= _) = _
    rw [members]
    by_cases fits : membersDepth ms ≤ room
    · rw [if_pos fits, if_pos (inside.2 fits)]
      rfl
    · rw [if_neg fits, if_neg (mt inside.1 fits)]
      rfl

namespace Record

theorem gives_field {r : Reader β} {room : Nat} {v : Json} {outcome : Except Fault β}
    (gives : Gives r room v outcome) {name : String} {set : β → α → α} {presence : Presence} :
    Gives (field name r set presence).read room v (outcome.map set) := by
  intro s stops
  change (r room (v.bytes ++ s) >>= _) = _
  rw [gives s stops]
  cases outcome <;> rfl

/-- What comes of the members of a record in object form, when the fields whose names are given
have been seen and the others are to be put into the draft. -/
inductive Fills (r : Record α) (room : Nat) :
    List String → α → List (String × Json) → Except Fault α → Prop
  | done {seen draft} (complete : r.missing? seen = none) : Fills r room seen draft [] (.ok draft)
  | field {seen draft f key v set ms outcome} (known : r.fields.find? (·.name == key) = some f)
      (fresh : key ∉ seen) (gives : Gives f.read room v (.ok set))
      (rest : Fills r room (key :: seen) (set draft) ms outcome) :
      Fills r room seen draft ((key, v) :: ms) outcome
  | fails {seen draft f key v fault ms} (known : r.fields.find? (·.name == key) = some f)
      (fresh : key ∉ seen) (gives : Gives f.read room v (.error fault)) :
      Fills r room seen draft ((key, v) :: ms) (.error fault)

theorem readMembers_field {r : Record α} {f : Field α} {key : String}
    (known : r.fields.find? (·.name == key) = some f) {seen : List String} (fresh : key ∉ seen)
    (first : Bool) (room fuel : Nat) (draft : α) (v : Json) (ms : List (String × Json))
    (s : Bytes) :
    r.readMembers room (fuel + 1) first seen draft (roster first ((key, v) :: ms) ++ s) =
      f.read room (v.bytes ++ (roster false ms ++ s)) >>= fun (set, s) =>
        r.readMembers room fuel false (key :: seen) (set draft) s := by
  have next := nextKey_written first key (octet ':' :: (v.bytes ++ (roster false ms ++ s)))
  rw [roster_cons, readMembers, next]
  simp only [bind, Except.bind]
  rw [known]
  simp only [List.contains_eq_mem, fresh, decide_false, Bool.false_eq_true, if_false]
  rfl

theorem readMembers_roster {r : Record α} {room : Nat} {seen : List String} {draft : α}
    {ms : List (String × Json)} {outcome : Except Fault α}
    (fills : Fills r room seen draft ms outcome) (first : Bool) (fuel : Nat)
    (enough : (roster first ms).length ≤ fuel) (s : Bytes) :
    r.readMembers room fuel first seen draft (roster first ms ++ s) =
      outcome.map fun a => (a, octet '\x7d' :: s) := by
  obtain ⟨fuel, rfl⟩ : ∃ k, fuel = k + 1 := ⟨fuel - 1, by
    have positive := length_roster_pos first ms
    omega⟩
  induction fills generalizing first fuel with
  | done complete =>
    have closed := nextKey_closed first s
    rw [roster_nil, List.singleton_append, readMembers, closed]
    simp only [bind, Except.bind, complete]
    rfl
  | @field seen draft f key v set ms outcome known fresh gives rest ih =>
    have octets := length_roster_cons first key v ms
    have positive := length_roster_pos false ms
    obtain ⟨fuel, rfl⟩ : ∃ k, fuel = k + 1 := ⟨fuel - 1, by omega⟩
    rw [readMembers_field known fresh, gives _ (stops_roster ms s)]
    exact ih false fuel (by omega)
  | @fails seen draft f key v fault ms known fresh gives =>
    rw [readMembers_field known fresh, gives _ (stops_roster ms s)]
    rfl

theorem Fills.gives {r : Record α} {room : Nat} {ms : List (String × Json)}
    {outcome : Except Fault α} (fills : Fills r room [] r.blank ms outcome) :
    Gives r.read (room + 1) (.object ms) outcome := by
  intro s stops
  have members := readMembers_roster fills true
    ((roster true ms ++ s).length + 1) (by rw [List.length_append]; omega) s
  change (r.readMembers room ((roster true ms ++ s).length + 1) true [] r.blank
    (roster true ms ++ s) >>= _) = _
  rw [members]
  cases outcome <;> rfl

end Record

theorem Command.gives (room : Nat) (c : Command) : Gives Command.reader room c.toJson (.ok c) :=
  Reader.gives_choice (ofName?_name c) room

theorem State.gives (room : Nat) (s : State) : Gives State.reader room s.toJson (.ok s) :=
  Reader.gives_choice (ofName?_name s) room

theorem FailureKind.gives (room : Nat) (k : FailureKind) :
    Gives FailureKind.reader room k.toJson (.ok k) :=
  Reader.gives_choice (ofName?_name k) room

open Record

theorem Status.gives (room : Nat) (s : Status) : Gives Status.reader (room + 1) s.toJson (.ok s) :=
  Fills.gives <|
    .field rfl (by decide) (gives_field (State.gives room s.state)) <|
    .field rfl (by decide) (gives_field (Reader.gives_text room s.lastError)) <|
    .done rfl

theorem Config.gives (room : Nat) {c : Config} (word : c.historyCapacity < wordLimit) :
    Gives Config.reader (room + 1) c.toJson (.ok c) :=
  Fills.gives <|
    .field rfl (by decide) (gives_field (Reader.gives_boolean room c.restartFromError)) <|
    .field rfl (by decide) (gives_field (Reader.gives_size room word)) <|
    .done rfl

theorem Result.gives (room : Nat) (r : Result) :
    Gives Result.reader (room + 1) r.toJson (.ok r) := by
  obtain ⟨command, previous, resulting, success, message, kind⟩ := r
  refine Fills.gives <|
    .field rfl (by decide) (gives_field (Command.gives room command)) <|
    .field rfl (by decide) (gives_field (State.gives room previous)) <|
    .field rfl (by decide) (gives_field (State.gives room resulting)) <|
    .field rfl (by decide) (gives_field (Reader.gives_boolean room success)) ?_
  cases message with
  | none =>
    cases kind with
    | none => exact .done rfl
    | some kind =>
      exact .field rfl (by decide) (gives_field (Reader.gives_some (FailureKind.gives room kind)))
        (.done rfl)
  | some message =>
    refine .field rfl (by decide)
      (gives_field (Reader.gives_some (Reader.gives_string room message))) ?_
    cases kind with
    | none => exact .done rfl
    | some kind =>
      exact .field rfl (by decide) (gives_field (Reader.gives_some (FailureKind.gives room kind)))
        (.done rfl)

theorem Reply.gives (room : Nat) (r : Reply) : Gives Reply.reader (room + 2) r.toJson (.ok r) :=
  Fills.gives <|
    .field rfl (by decide) (gives_field (Reader.gives_string (room + 1) r.id)) <|
    .field rfl (by decide) (gives_field (Result.gives room r.result)) <|
    .done rfl

theorem Envelope.gives (room : Nat) {e : Envelope} (ordered : e.args.Ordered)
    (integral : e.args.Integral) : Gives Envelope.reader (room + 1) e.toJson
      (if e.args.depth ≤ room then .ok e else .error .malformed) := by
  have args := Reader.gives_value ordered integral room
  refine Fills.gives <|
    .field rfl (by decide) (gives_field (Reader.gives_string room e.id)) <|
    .field rfl (by decide) (gives_field (Reader.gives_string room e.cmd)) ?_
  by_cases fits : e.args.depth ≤ room
  · rw [if_pos fits] at args ⊢
    exact .field rfl (by decide) (gives_field args) (.done rfl)
  · rw [if_neg fits] at args ⊢
    exact .fails rfl (by decide) (gives_field args)

theorem Request.gives (room : Nat) {r : Request} (ordered : r.args.toJson.Ordered)
    (integral : r.args.toJson.Integral) : Gives Request.reader (room + 1) r.toJson
      (if r.args.toJson.depth ≤ room then .ok r else .error .malformed) := by
  have args : Gives Args.reader room r.args.toJson
      (if r.args.toJson.depth ≤ room then .ok r.args else .error .malformed) :=
    Args.gives ordered integral room
  refine Fills.gives <|
    .field rfl (by decide) (gives_field (Command.gives room r.command)) ?_
  by_cases fits : r.args.toJson.depth ≤ room
  · rw [if_pos fits] at args ⊢
    exact .field rfl (by decide) (gives_field args) (.done rfl)
  · rw [if_neg fits] at args ⊢
    exact .fails rfl (by decide) (gives_field args)

/-- What is written can be read back; arguments beyond the nesting that a reader admits make a
document that only a more tolerant reader reads. -/
structure RoundTrip : Prop where
  reply (r : Reply) : Reply.reader.decode r.toJson.bytes = .ok r
  result (r : Result) : Result.reader.decode r.toJson.bytes = .ok r
  status (s : Status) : Status.reader.decode s.toJson.bytes = .ok s
  config (c : Config) : c.historyCapacity < wordLimit → Config.reader.decode c.toJson.bytes = .ok c
  envelope (e : Envelope) : e.args.Ordered → e.args.Integral → e.args.depth ≤ 126 →
    Envelope.reader.decode e.toJson.bytes = .ok e
  request (r : Request) : r.args.toJson.Ordered → r.args.toJson.Integral →
    r.args.toJson.depth ≤ 126 → Request.reader.decode r.toJson.bytes = .ok r
  deepEnvelope (e : Envelope) : e.args.Ordered → e.args.Integral → 127 ≤ e.args.depth →
    decode? e.toJson.bytes = some e.toJson.chars ∧
      Envelope.reader (e.args.depth + 1) e.toJson.bytes = .ok (e, []) ∧
      Envelope.reader.decode e.toJson.bytes = .error .malformed
  deepRequest (r : Request) : r.args.toJson.Ordered → r.args.toJson.Integral →
    127 ≤ r.args.toJson.depth →
    decode? r.toJson.bytes = some r.toJson.chars ∧
      Request.reader (r.args.toJson.depth + 1) r.toJson.bytes = .ok (r, []) ∧
      Request.reader.decode r.toJson.bytes = .error .malformed

theorem read_what_is_written : RoundTrip where
  reply r := (Reply.gives 125 r).decode
  result r := (Result.gives 126 r).decode
  status s := (Status.gives 126 s).decode
  config c word := (Config.gives 126 word).decode
  envelope e ordered integral fits :=
    (Envelope.gives 126 ordered integral).decode.trans (if_pos fits)
  request r ordered integral fits :=
    (Request.gives 126 ordered integral).decode.trans (if_pos fits)
  deepEnvelope e ordered integral deep := by
    have shallow : ¬ e.args.depth ≤ 126 := by omega
    have tolerant := (Envelope.gives e.args.depth ordered integral).alone
    rw [if_pos (Nat.le_refl _)] at tolerant
    exact ⟨decode?_encode _, tolerant,
      (Envelope.gives 126 ordered integral).decode.trans (if_neg shallow)⟩
  deepRequest r ordered integral deep := by
    have shallow : ¬ r.args.toJson.depth ≤ 126 := by omega
    have tolerant := (Request.gives r.args.toJson.depth ordered integral).alone
    rw [if_pos (Nat.le_refl _)] at tolerant
    exact ⟨decode?_encode _, tolerant,
      (Request.gives 126 ordered integral).decode.trans (if_neg shallow)⟩

def nest : Nat → Json
  | 0 => .null
  | n + 1 => .array [nest n]

theorem nest_fits (n : Nat) : (nest n).Ordered ∧ (nest n).Integral ∧ (nest n).depth = n := by
  induction n with
  | zero => exact ⟨trivial, trivial, rfl⟩
  | succ n ih =>
    obtain ⟨ordered, integral, depth⟩ := ih
    refine ⟨⟨ordered, trivial⟩, ⟨integral, trivial⟩, ?_⟩
    simp [nest, Json.depth, elementsDepth, depth]

def extremes (n : Nat) : Args :=
  ⟨[("least", .integer (-9223372036854775808)), ("most", .integer 18446744073709551615),
    ("nest", nest n)]⟩

theorem extremes_fit (n : Nat) : (extremes n).toJson.Ordered ∧ (extremes n).toJson.Integral ∧
    (extremes n).toJson.depth = n + 1 := by
  obtain ⟨ordered, integral, depth⟩ := nest_fits n
  refine ⟨⟨?_, trivial, trivial, ordered, trivial⟩, ⟨?_, ?_, integral, trivial⟩, ?_⟩
  · change List.Pairwise (· < ·) ["least", "most", "nest"]
    decide
  · exact ⟨by decide, by decide⟩
  · exact ⟨by decide, by decide⟩
  · simp [extremes, Args.toJson, Json.depth, membersDepth, Json.integer, depth]

theorem read_at_the_limits :
    Config.reader.decode (Config.toJson ⟨true, wordLimit - 1⟩).bytes = .ok ⟨true, wordLimit - 1⟩ ∧
    Envelope.reader.decode (Envelope.toJson ⟨"\"\\\t🦀", "\u0001", (extremes 125).toJson⟩).bytes =
      .ok ⟨"\"\\\t🦀", "\u0001", (extremes 125).toJson⟩ ∧
    Envelope.reader.decode (Envelope.toJson ⟨"\"\\\t🦀", "\u0001", (extremes 126).toJson⟩).bytes =
      .error .malformed ∧
    Request.reader.decode (Request.toJson ⟨.reload, extremes 125⟩).bytes =
      .ok ⟨.reload, extremes 125⟩ ∧
    Request.reader.decode (Request.toJson ⟨.reload, extremes 126⟩).bytes = .error .malformed := by
  obtain ⟨ordered, integral, depth⟩ := extremes_fit 125
  obtain ⟨ordered', integral', depth'⟩ := extremes_fit 126
  exact ⟨read_what_is_written.config _ (by decide),
    read_what_is_written.envelope ⟨_, _, _⟩ ordered integral (Nat.le_of_eq depth),
    (read_what_is_written.deepEnvelope ⟨_, _, _⟩ ordered' integral' (Nat.le_of_eq depth'.symm)).2.2,
    read_what_is_written.request ⟨_, _⟩ ordered integral (Nat.le_of_eq depth),
    (read_what_is_written.deepRequest ⟨_, _⟩ ordered' integral' (Nat.le_of_eq depth'.symm)).2.2⟩

end Lifecycle
