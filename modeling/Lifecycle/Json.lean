import Lifecycle.Json.Members
import Lifecycle.Number.Binary64

/-! JSON values. An object is a finite map whose members stand in ascending order of their keys;
`Json.Ordered` says so at every level, and it holds of every value that is read from a document.
Two values are the same when they differ at most in the sign of a zero. -/

namespace Lifecycle

inductive Number
  | integer (n : Int)
  | float (x : Binary64)
  deriving DecidableEq, Repr

def Number.same : Number → Number → Bool
  | integer m, integer n => m == n
  | float x, float y => x.same y
  | _, _ => false

inductive Json
  | null
  | bool (b : Bool)
  | number (n : Number)
  | string (s : String)
  | array (elements : List Json)
  | object (members : List (String × Json))
  deriving Inhabited

namespace Json

def integer (n : Int) : Json := number (.integer n)

def ofText? : Option String → Json
  | some s => string s
  | none => null

mutual

def same : Json → Json → Bool
  | null, null => true
  | bool a, bool b => a == b
  | number a, number b => a.same b
  | string s, string t => s == t
  | array xs, array ys => sameElements xs ys
  | object xs, object ys => sameMembers xs ys
  | _, _ => false

def sameElements : List Json → List Json → Bool
  | [], [] => true
  | x :: xs, y :: ys => same x y && sameElements xs ys
  | _, _ => false

def sameMembers : List (String × Json) → List (String × Json) → Bool
  | [], [] => true
  | (k, x) :: xs, (l, y) :: ys => k == l && same x y && sameMembers xs ys
  | _, _ => false

end

mutual

def Ordered : Json → Prop
  | array xs => OrderedElements xs
  | object xs => Members.Ascending xs ∧ OrderedMembers xs
  | _ => True

def OrderedElements : List Json → Prop
  | [] => True
  | x :: xs => Ordered x ∧ OrderedElements xs

def OrderedMembers : List (String × Json) → Prop
  | [] => True
  | (_, x) :: xs => Ordered x ∧ OrderedMembers xs

end

mutual

/-- How many arrays and objects are nested at most; a flat one counts one. -/
def depth : Json → Nat
  | array xs => elementsDepth xs + 1
  | object xs => membersDepth xs + 1
  | _ => 0

def elementsDepth : List Json → Nat
  | [] => 0
  | x :: xs => max (depth x) (elementsDepth xs)

def membersDepth : List (String × Json) → Nat
  | [] => 0
  | (_, x) :: xs => max (depth x) (membersDepth xs)

end

end Json

end Lifecycle
