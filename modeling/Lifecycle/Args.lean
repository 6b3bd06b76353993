import Lifecycle.Json.Reader

/-! The argument document that a command carries: an object whose content only handlers look at. -/

namespace Lifecycle

structure Args where
  members : Members Json := []
  deriving Inhabited

namespace Args

def empty : Args := {}

structure Invalid where
  found : String
  deriving DecidableEq, Repr

def Invalid.message (e : Invalid) : String :=
  s!"command arguments must be a JSON object, got {e.found}"

def ofJson : Json → Except Invalid Args
  | .object m => .ok ⟨m⟩
  | .null => .ok empty
  | .bool _ => .error ⟨"boolean"⟩
  | .number _ => .error ⟨"number"⟩
  | .string _ => .error ⟨"string"⟩
  | .array _ => .error ⟨"array"⟩

def toJson (a : Args) : Json := .object a.members

def text (a : Args) : String := a.toJson.text

def insert (a : Args) (key : String) (value : Json) : Args := ⟨a.members.insert key value⟩

def get? (a : Args) (key : String) : Option Json := a.members.get? key

/-- Whether the value under the key is true; any other value and none count as false. -/
def flag (a : Args) (key : String) : Bool :=
  match a.get? key with
  | some (.bool b) => b
  | _ => false

def text? (a : Args) (key : String) : Option String :=
  match a.get? key with
  | some (.string s) => some s
  | _ => none

def keys (a : Args) : List String := a.members.keys

def length (a : Args) : Nat := a.members.length

def isEmpty (a : Args) : Bool := a.members.isEmpty

def same (a b : Args) : Bool := Json.sameMembers a.members b.members

def reader : Reader Args := fun room s => do
  let (m, s) ← Reader.members room s
  return (⟨m⟩, s)

theorem get?_insert (a : Args) (key k : String) (value : Json) :
    (a.insert key value).get? k = if k = key then some value else a.get? k :=
  Members.get?_insert key k value a.members

theorem ofJson_toJson (a : Args) : ofJson a.toJson = .ok a := rfl

end Args

end Lifecycle
