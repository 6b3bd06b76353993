import Lifecycle.Json.Scan

/-! Number literals. A literal without fraction and exponent is an integer if it lies between
`-2 ^ 63` and `2 ^ 64 - 1` and is not `-0`; every other one is in binary floating point, and one
beyond its range is malformed. -/

namespace Lifecycle

structure Numeral where
  negative : Bool
  whole : List Nat
  fraction : Option (List Nat) := none
  exponent : Option (Bool × List Nat) := none
  deriving DecidableEq, Repr

namespace Numeral

def isDigit (b : UInt8) : Bool := Scan.octet '0' ≤ b && b ≤ Scan.octet '9'

def digitsOf (s : Bytes) : List Nat := (s.takeWhile isDigit).map (·.toNat - 48)

/-- One digit or more; `absent` is the fault where none stands before the end of the input. -/
def digits (absent : Fault) (s : Bytes) : Except Fault (List Nat × Bytes) :=
  match s with
  | [] => .error absent
  | b :: _ => if isDigit b then .ok (digitsOf s, s.dropWhile isDigit) else .error .malformed

def wholePart (absent : Fault) (s : Bytes) : Except Fault (List Nat × Bytes) := do
  let (ds, rest) ← digits absent s
  if ds.head? = some 0 ∧ 1 < ds.length then .error .malformed else return (ds, rest)

def fractionPart (absent : Fault) (s : Bytes) : Except Fault (Option (List Nat) × Bytes) :=
  match s with
  | b :: rest =>
    if b = Scan.octet '.' then do
      let (ds, rest) ← digits absent rest
      return (some ds, rest)
    else .ok (none, s)
  | [] => .ok (none, s)

def exponentSign (s : Bytes) : Bool × Bytes :=
  match s with
  | b :: rest =>
    if b = Scan.octet '-' then (true, rest)
    else if b = Scan.octet '+' then (false, rest)
    else (false, s)
  | [] => (false, s)

def exponentPart (absent : Fault) (s : Bytes) : Except Fault ((Option (Bool × List Nat)) × Bytes) :=
  match s with
  | b :: rest =>
    if b = Scan.octet 'e' ∨ b = Scan.octet 'E' then do
      let (negative, rest) := exponentSign rest
      let (ds, rest) ← digits absent rest
      return (some (negative, ds), rest)
    else .ok (none, s)
  | [] => .ok (none, s)

def scan (absent : Fault) (negative : Bool) (s : Bytes) : Except Fault (Numeral × Bytes) := do
  let (whole, s) ← wholePart absent s
  let (fraction, s) ← fractionPart absent s
  let (exponent, s) ← exponentPart absent s
  return ({ negative, whole, fraction, exponent }, s)

def ofDigits (ds : List Nat) : Nat := ds.foldl (fun n d => n * 10 + d) 0

def wordLimit : Nat := 18446744073709551616

/-- The leading digits that fit 64 bits, and how many are left out behind them. -/
def leading (ds : List Nat) : Nat × Nat :=
  ds.foldl (fun (n, dropped) d =>
    if dropped = 0 ∧ n * 10 + d < wordLimit then (n * 10 + d, 0) else (n, dropped + 1)) (0, 0)

/-- Goes on with the digits behind the point while they fit; the number of those taken. -/
def trailing (n : Nat) : List Nat → Nat × Nat
  | [] => (n, 0)
  | d :: ds =>
    if n * 10 + d < wordLimit then
      let (m, taken) := trailing (n * 10 + d) ds
      (m, taken + 1)
    else (n, 0)

def exponentValue : Option (Bool × List Nat) → Int
  | none => 0
  | some (true, ds) => -(ofDigits ds : Int)
  | some (false, ds) => ofDigits ds

/-- The literal in binary floating point, from at most 64 bits of its digits. -/
def float (x : Numeral) : Except Fault Number :=
  let (n, dropped) := leading x.whole
  let (n, taken) := trailing n (x.fraction.getD [])
  match Magnitude.ofDecimal n (dropped - taken + exponentValue x.exponent) with
  | some m => .ok (.float ⟨x.negative, m⟩)
  | none => .error .malformed

def value (x : Numeral) : Except Fault Number :=
  let n := ofDigits x.whole
  if x.fraction.isSome ∨ x.exponent.isSome then x.float
  else if x.negative then
    if n = 0 ∨ wordLimit / 2 < n then x.float else .ok (.integer (-n))
  else if n < wordLimit then .ok (.integer n)
  else x.float

def read (negative : Bool) (s : Bytes) : Except Fault (Number × Bytes) := do
  let (x, s) ← scan .ended negative s
  return (← x.value, s)

/-- Passes over a number. Its digits may not break off, not even at the end of the input, and no
range is checked. -/
def skip (negative : Bool) (s : Bytes) : Except Fault Bytes := do
  let (_, s) ← scan .malformed negative s
  return s

end Numeral

end Lifecycle
