import Lifecycle.Number.Binary64

/-! The shortest decimal text that reads back as the same number. The reals that round to a
magnitude form an interval, whose ends belong to it exactly when the mantissa is even. For one
digit, two digits and so on up to seventeen, the two neighbours of the magnitude on the decimal
grid with that many digits are tested against the interval; the first grid with a hit decides,
and of two hits the nearer one. -/

namespace Lifecycle.Shortest

structure Decimal where
  digits : Nat
  scale : Int
  deriving DecidableEq, Repr

def scaled (a : Nat) (k : Int) : Nat × Nat :=
  (a * Nat.pow 10 k.toNat, Nat.pow 10 (-k).toNat)

/-- The ends of the interval that rounds to `x`, in quarters of its last place. The lower
neighbour of a power of two is only half as far away. -/
def ends (x : Magnitude) : Nat × Nat :=
  let power := 2 * x.mantissa = Magnitude.mantissaLimit ∧ Magnitude.leastExponent < x.exponent
  let lower := if power then 1 else 2
  (4 * x.mantissa - lower, 4 * x.mantissa + 2)

/-- Whether the decimal lies in the interval of reals that round to `x`. -/
def roundsTo (x : Magnitude) (t : Decimal) : Bool :=
  let (n, d) := scaled t.digits t.scale
  let (low, high) := ends x
  let unit := Nat.pow 2 x.exponent.toNat
  let target := 4 * n * x.denominator
  if x.mantissa % 2 = 0 then low * unit * d ≤ target && target ≤ high * unit * d
  else low * unit * d < target && target < high * unit * d

def width (n : Nat) : Nat := (Nat.toDigits 10 n).length

def firstPlace (n d : Nat) : Nat → Nat
  | 0 => 0
  | limit + 1 => if d ≤ n then 0 else firstPlace (n * 10) d limit + 1

def leadingPower (x : Magnitude) : Int :=
  let n := x.numerator
  let d := x.denominator
  if d ≤ n then (width (n / d) : Int) - 1 else -(firstPlace n d 400 : Int)

def onGrid (x : Magnitude) (scale : Int) : Option Decimal :=
  let n := x.numerator * Nat.pow 10 (-scale).toNat
  let d := x.denominator * Nat.pow 10 scale.toNat
  let below : Decimal := ⟨n / d, scale⟩
  let above : Decimal := ⟨n / d + 1, scale⟩
  match roundsTo x below, roundsTo x above with
  | true, true =>
    let r := n % d
    if 2 * r < d ∨ (2 * r = d ∧ n / d % 2 = 0) then some below else some above
  | true, false => some below
  | false, true => some above
  | false, false => none

def search (x : Magnitude) (scale : Int) : Nat → Decimal
  | 0 => ⟨x.numerator / x.denominator, 0⟩
  | tries + 1 => (onGrid x scale).getD (search x (scale - 1) tries)

def decimal (x : Magnitude) : Decimal := search x (leadingPower x) 17

def significant (t : Decimal) : List Char × Int :=
  let ds := Nat.toDigits 10 t.digits
  ((ds.reverse.dropWhile (· == '0')).reverse, t.scale + ds.length - 1)

/-- Where positional notation ends and how an exponent is written: positional for leading powers
from `10 ^ -5` to `10 ^ 15`, else one digit, a point and the others, and an exponent with its
sign. -/
def layout (ds : List Char) (power : Int) : List Char :=
  if -5 ≤ power ∧ power < 0 then
    ['0', '.'] ++ List.replicate (-power - 1).toNat '0' ++ ds
  else if 0 ≤ power ∧ power ≤ 15 then
    let point := power.toNat + 1
    if ds.length ≤ point then ds ++ List.replicate (point - ds.length) '0' ++ ['.', '0']
    else ds.take point ++ '.' :: ds.drop point
  else
    let mark := if power < 0 then '-' else '+'
    ds.take 1 ++ (if ds.length ≤ 1 then [] else '.' :: ds.drop 1) ++
      'e' :: mark :: Nat.toDigits 10 power.natAbs

def magnitudeText (x : Magnitude) : List Char :=
  if x.mantissa = 0 then ['0', '.', '0']
  else
    let (ds, power) := significant (decimal x)
    layout ds power

end Lifecycle.Shortest

def Lifecycle.Binary64.chars (x : Lifecycle.Binary64) : List Char :=
  (if x.negative then ['-'] else []) ++ Lifecycle.Shortest.magnitudeText x.magnitude
