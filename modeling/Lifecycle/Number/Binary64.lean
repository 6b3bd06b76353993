/-! Finite numbers in binary floating point with a 53-bit significand. A magnitude is
`mantissa · 2 ^ exponent`, and every operation here is exact arithmetic on naturals followed by
one rounding to the nearest such magnitude, a tie going to the even mantissa. -/

namespace Lifecycle

/-- A magnitude `mantissa · 2 ^ exponent`. Those made by `Magnitude.round` have
`2 ^ 52 ≤ mantissa < 2 ^ 53`, or the least exponent and a smaller mantissa. -/
structure Magnitude where
  mantissa : Nat
  exponent : Int
  deriving DecidableEq, Repr, Inhabited

namespace Magnitude

def leastExponent : Int := -1074

def greatestExponent : Int := 971

def mantissaLimit : Nat := 9007199254740992

def zero : Magnitude := ⟨0, leastExponent⟩

def numerator (x : Magnitude) : Nat := x.mantissa * Nat.pow 2 x.exponent.toNat

def denominator (x : Magnitude) : Nat := Nat.pow 2 (-x.exponent).toNat

/-- The quotient to the nearest natural, a tie going to the even one. -/
def roundQuotient (n d : Nat) : Nat :=
  let q := n / d
  let r := n % d
  if d < 2 * r ∨ (2 * r = d ∧ q % 2 = 1) then q + 1 else q

def exponentOf (n d : Nat) : Int :=
  let shift : Int := (n.log2 : Int) - (d.log2 : Int)
  let below := if 0 ≤ shift then n < d * Nat.pow 2 shift.toNat
    else n * Nat.pow 2 (-shift).toNat < d
  max (if below then shift - 53 else shift - 52) leastExponent

def round (n d : Nat) : Option Magnitude :=
  if n = 0 then some zero
  else
    let e := exponentOf n d
    let m := roundQuotient (n * Nat.pow 2 (-e).toNat) (d * Nat.pow 2 e.toNat)
    let x : Magnitude := if m = mantissaLimit then ⟨m / 2, e + 1⟩ else ⟨m, e⟩
    if x.exponent ≤ greatestExponent then some x else none

/-- A power of ten as a magnitude: exact up to `10 ^ 22`, the nearest one beyond. -/
def powerOfTen (k : Nat) : Magnitude := (round (Nat.pow 10 k) 1).getD zero

def timesPowerOfTen (x : Magnitude) (k : Nat) : Option Magnitude :=
  let p := powerOfTen k
  round (x.numerator * p.numerator) (x.denominator * p.denominator)

def overPowerOfTen (x : Magnitude) (k : Nat) : Option Magnitude :=
  let p := powerOfTen k
  round (x.numerator * p.denominator) (x.denominator * p.numerator)

/-- Divides by `10 ^ 308` until the rest of the division fits one step. Three steps take every
significand below `2 ^ 64` to zero. -/
def shrink (x : Magnitude) (k : Nat) : Nat → Option Magnitude
  | 0 => some zero
  | steps + 1 =>
    if k ≤ 308 then x.overPowerOfTen k
    else if x.mantissa = 0 then some zero
    else match x.overPowerOfTen 308 with
      | some y => shrink y (k - 308) steps
      | none => none

/-- The magnitude read from `significand · 10 ^ exponent`: the significand is rounded first and
then scaled by a power of ten, which rounds again. None is beyond the greatest magnitude. -/
def ofDecimal (significand : Nat) (exponent : Int) : Option Magnitude :=
  match round significand 1 with
  | none => none
  | some x =>
    if exponent < 0 then x.shrink (-exponent).toNat 3
    else if exponent ≤ 308 then x.timesPowerOfTen exponent.toNat
    else if significand = 0 then some zero
    else none

end Magnitude

structure Binary64 where
  negative : Bool
  magnitude : Magnitude
  deriving DecidableEq, Repr, Inhabited

namespace Binary64

def same (x y : Binary64) : Bool :=
  x.magnitude == y.magnitude && (x.negative == y.negative || x.magnitude.mantissa == 0)

end Binary64

end Lifecycle
