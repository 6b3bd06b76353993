import Lifecycle.Json.Skip

/-! Reading a value of any kind. At most 127 arrays and objects may be open at once, and of a key
that occurs more than once in an object the last value counts. -/

namespace Lifecycle

/-- How many arrays and objects a document may have open at once. -/
def nestingLimit : Nat := 127

namespace Json

open Scan

def readScalar : Bytes → Except Fault (Json × Bytes)
  | [] => .error .ended
  | b :: s =>
    if b = octet 'n' then do return (null, ← word restOfNull s)
    else if b = octet 't' then do return (bool true, ← word restOfTrue s)
    else if b = octet 'f' then do return (bool false, ← word restOfFalse s)
    else if b = octet '-' then do
      let (n, s) ← Numeral.read true s
      return (number n, s)
    else if Numeral.isDigit b then do
      let (n, s) ← Numeral.read false (b :: s)
      return (number n, s)
    else if b = octet '"' then do
      let (t, s) ← Scan.string s
      return (string t, s)
    else .error .malformed

mutual

/-- Reads a value, with `room` more arrays and objects allowed to open. Fuel covers two steps for
each octet. -/
def readValue : Nat → Nat → Bytes → Except Fault (Json × Bytes)
  | 0, _, _ => .error .ended
  | fuel + 1, room, s =>
    match skipSpace s with
    | [] => .error .ended
    | b :: rest =>
      match Skip.opening? b, room with
      | none, _ => readScalar (b :: rest)
      | some _, 0 => .error .malformed
      | some .square, room + 1 => do
        let (xs, s) ← readElements fuel room [] rest
        return (array xs, ← closeArray s)
      | some .curly, room + 1 => do
        let (m, s) ← readMembers fuel room true [] rest
        return (object m, ← closeObject s)

def readElements : Nat → Nat → List Json → Bytes → Except Fault (List Json × Bytes)
  | 0, _, _, _ => .error .ended
  | fuel + 1, room, done, s => do
    match ← nextElement done.isEmpty s with
    | (false, s) => return (done.reverse, s)
    | (true, s) =>
      let (x, s) ← readValue fuel room s
      readElements fuel room (x :: done) s

def readMembers : Nat → Nat → Bool → Members Json → Bytes →
    Except Fault (Members Json × Bytes)
  | 0, _, _, _, _ => .error .ended
  | fuel + 1, room, first, done, s => do
    match ← nextKey first s with
    | (none, s) => return (done, s)
    | (some key, s) =>
      let s ← colon s
      let (x, s) ← readValue fuel room s
      readMembers fuel room false (done.insert key x) s

end

def fuelFor (s : Bytes) : Nat := 2 * s.length + 2

end Json

end Lifecycle
