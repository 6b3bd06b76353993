import Lifecycle.Json.Text
import Lifecycle.Text.Quoted

/-! Why a document cannot be read. Reading goes from left to right and the first fault met is the
one reported: the input ends where a value has to go on, it is not JSON, or it is JSON that does
not fit what is expected there. -/

namespace Lifecycle

inductive Found
  | boolean (b : Bool)
  | number (n : Number)
  | string (s : String)
  | null
  | sequence
  | map
  deriving DecidableEq, Repr

def Found.text : Found → String
  | boolean b => s!"boolean `{b}`"
  | number (.integer n) => s!"integer `{n}`"
  | number (.float x) =>
    let digits := String.ofList x.chars
    s!"floating point `{digits}`"
  | string s => "string " ++ Text.quoted s
  | null => "null"
  | sequence => "sequence"
  | map => "map"

inductive Mismatch
  | missingField (name : String)
  | duplicateField (name : String)
  | unknownField (name : String) (known : List String)
  | unknownVariant (name : String) (known : List String)
  | wrongType (found : Found) (expected : String)
  | wrongValue (found : Found) (expected : String)
  | wrongLength (length : Nat) (expected : String)
  deriving DecidableEq, Repr

/-- A choice of names: two are joined by a word, more are announced. -/
def alternatives : List String → String
  | [] => "nothing"
  | [a] => s!"`{a}`"
  | [a, b] => s!"`{a}` or `{b}`"
  | names => "one of " ++ String.intercalate ", " (names.map fun name => s!"`{name}`")

def Mismatch.message : Mismatch → String
  | missingField name => s!"missing field `{name}`"
  | duplicateField name => s!"duplicate field `{name}`"
  | unknownField name known => s!"unknown field `{name}`, expected {alternatives known}"
  | unknownVariant name known => s!"unknown variant `{name}`, expected {alternatives known}"
  | wrongType found expected => s!"invalid type: {found.text}, expected {expected}"
  | wrongValue found expected => s!"invalid value: {found.text}, expected {expected}"
  | wrongLength length expected => s!"invalid length {length}, expected {expected}"

inductive Fault
  | ended
  | malformed
  | unfit (cause : Mismatch)
  deriving DecidableEq, Repr

def Fault.message : Fault → String
  | ended => "<eof>"
  | malformed => "<syntax>"
  | unfit cause => cause.message

end Lifecycle
