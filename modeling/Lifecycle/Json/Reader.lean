import Lifecycle.Json.Value

/-! Readers for documents of a known shape. Each reads straight from the octets and so reports
the leftmost fault, whether that is one of form or of fit. A record is an object with named
fields, in any order and among unknown ones, or an array of its fields in order. -/

namespace Lifecycle

/-- Reads a value when the given number of arrays and objects may still open. -/
abbrev Reader (α : Type) := Nat → Bytes → Except Fault (α × Bytes)

namespace Reader

open Scan

/-- The kind of value that begins at an octet other than a blank, read as far as its kind and,
for scalars, its content require. -/
def found : Bytes → Except Fault Found
  | [] => .error .ended
  | b :: s =>
    match Skip.opening? b with
    | some .square => .ok .sequence
    | some .curly => .ok .map
    | none => do
      match ← Json.readScalar (b :: s) with
      | (.bool v, _) => return .boolean v
      | (.number n, _) => return .number n
      | (.string t, _) => return .string t
      | _ => return .null

def wrongType {α : Type} (expected : String) (s : Bytes) : Except Fault α := do
  let f ← found s
  throw (.unfit (.wrongType f expected))

def value : Reader Json := fun room s => Json.readValue (Json.fuelFor s) room s

def string : Reader String := fun _ s =>
  match skipSpace s with
  | [] => .error .ended
  | b :: s => if b = octet '"' then Scan.string s else wrongType "a string" (b :: s)

def boolean : Reader Bool := fun _ s =>
  match skipSpace s with
  | [] => .error .ended
  | b :: s =>
    if b = octet 't' then do return (true, ← word restOfTrue s)
    else if b = octet 'f' then do return (false, ← word restOfFalse s)
    else wrongType "a boolean" (b :: s)

def size : Reader Nat := fun _ s =>
  let given (n : Number) (s : Bytes) : Except Fault (Nat × Bytes) :=
    match n with
    | .integer (.ofNat n) => .ok (n, s)
    | .integer n => .error (.unfit (.wrongValue (.number (.integer n)) "usize"))
    | .float x => .error (.unfit (.wrongType (.number (.float x)) "usize"))
  match skipSpace s with
  | [] => .error .ended
  | b :: s =>
    if b = octet '-' then do
      let (n, s) ← Numeral.read true s
      given n s
    else if Numeral.isDigit b then do
      let (n, s) ← Numeral.read false (b :: s)
      given n s
    else wrongType "usize" (b :: s)

def unit : Reader Unit := fun _ s =>
  match skipSpace s with
  | [] => .error .ended
  | b :: s =>
    if b = octet 'n' then do return ((), ← word restOfNull s) else wrongType "unit" (b :: s)

def optional {α : Type} (r : Reader α) : Reader (Option α) := fun room s =>
  match skipSpace s with
  | [] => .error .ended
  | b :: s =>
    if b = octet 'n' then do return (none, ← word restOfNull s)
    else do
      let (v, s) ← r room (b :: s)
      return (some v, s)

def members : Reader (Members Json) := fun room s =>
  match skipSpace s, room with
  | [], _ => .error .ended
  | b :: s, room =>
    if b = octet '\x7b' then
      match room with
      | 0 => .error .malformed
      | room + 1 => do
        let (m, s) ← Json.readMembers (Json.fuelFor s) room true [] s
        return (m, ← closeObject s)
    else wrongType "a map" (b :: s)

/-- One of a list of names, as a string or as an object whose only key it is, with the value
null. What stands where the key should be and is no string is a fault of form, as it is where any
other key should be, and not one of type. -/
def choice {α : Type} (all : List α) (name : α → String) : Reader α := fun room s =>
  let named (t : String) : Except Fault α :=
    match all.find? (name · == t) with
    | some v => .ok v
    | none => .error (.unfit (.unknownVariant t (all.map name)))
  match skipSpace s with
  | [] => .error .ended
  | b :: s =>
    if b = octet '"' then do
      let (t, s) ← Scan.string s
      return (← named t, s)
    else if b = octet '\x7b' then
      match room with
      | 0 => .error .malformed
      | room + 1 => do
        let (t, s) ← key s
        let v ← named t
        let (_, s) ← unit room (← colon s)
        return (v, ← closeObject s)
    else .error .malformed

end Reader

/-- What the absence of a field means: a fault; a fault in an array only; or its default. -/
inductive Presence
  | required
  | nullable
  | defaulted
  deriving DecidableEq, Repr

structure Field (α : Type) where
  name : String
  presence : Presence := .required
  read : Reader (α → α)

/-- A record: its title in messages, its fields in order, the values of those that are absent, and
whether unknown fields are refused. -/
structure Record (α : Type) where
  title : String
  fields : List (Field α)
  blank : α
  closed : Bool := false

namespace Record

open Scan

variable {α : Type}

def field {β : Type} (name : String) (r : Reader β) (set : β → α → α)
    (presence : Presence := .required) : Field α where
  name
  presence
  read room s := do
    let (v, s) ← r room s
    return (set v, s)

def names (r : Record α) : List String := r.fields.map (·.name)

def missing? (r : Record α) (seen : List String) : Option String :=
  (r.fields.find? fun f => f.presence == .required && !seen.contains f.name).map (·.name)

def readMembers (r : Record α) (room : Nat) : Nat → Bool → List String → α → Bytes →
    Except Fault (α × Bytes)
  | 0, _, _, _, _ => .error .ended
  | fuel + 1, first, seen, draft, s => do
    match ← nextKey first s with
    | (none, s) =>
      match r.missing? seen with
      | some name => .error (.unfit (.missingField name))
      | none => return (draft, s)
    | (some key, s) =>
      match r.fields.find? (·.name == key) with
      | some f =>
        if seen.contains key then .error (.unfit (.duplicateField key))
        else
          let (set, s) ← f.read room (← colon s)
          readMembers r room fuel false (key :: seen) (set draft) s
      | none =>
        if r.closed then .error (.unfit (.unknownField key r.names))
        else
          let s ← Json.skip (← colon s)
          readMembers r room fuel false seen draft s

/-- The fields of a record in array form that are still to come, the first of them having the
given index, up to the bracket that closes it. -/
def readElements (r : Record α) (room : Nat) : List (Field α) → Nat → α → Bytes →
    Except Fault (α × Bytes)
  | [], _, draft, s => .ok (draft, s)
  | f :: fs, index, draft, s => do
    match ← nextElement (index == 0) s with
    | (true, s) =>
      let (set, s) ← f.read room s
      readElements r room fs (index + 1) (set draft) s
    | (false, s) =>
      if f.presence = .defaulted then readElements r room fs (index + 1) draft s
      else .error (.unfit
        (.wrongLength index s!"struct {r.title} with {r.fields.length} elements"))

def read (r : Record α) : Reader α := fun room s =>
  match skipSpace s with
  | [] => .error .ended
  | b :: s =>
    match Skip.opening? b, room with
    | none, _ => Reader.wrongType s!"struct {r.title}" (b :: s)
    | some _, 0 => .error .malformed
    | some .square, room + 1 => do
      let (v, s) ← r.readElements room r.fields 0 r.blank s
      return (v, ← closeArray s)
    | some .curly, room + 1 => do
      let (v, s) ← r.readMembers room (s.length + 1) true [] r.blank s
      return (v, ← closeObject s)

end Record

/-- Reads a whole document: one value, with nothing but blanks behind it. -/
def Reader.decode {α : Type} (r : Reader α) (document : Bytes) : Except Fault α := do
  let (v, s) ← r nestingLimit document
  match Scan.skipSpace s with
  | [] => return v
  | _ => throw .malformed

def Json.decode (document : Bytes) : Except Fault Json := Reader.value.decode document

end Lifecycle
