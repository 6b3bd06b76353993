import Lifecycle.Json.Numeral

/-! Passing over a value whose content nobody needs. Brackets are matched by a list of those still
open, so the nesting has no limit; strings and numbers are checked for their form only. -/

namespace Lifecycle.Skip

open Scan

inductive Bracket
  | square
  | curly
  deriving DecidableEq, Repr

def Bracket.closing : Bracket → UInt8
  | square => octet ']'
  | curly => octet '\x7d'

def key (s : Bytes) : Except Fault Bytes := do
  let s ← mark (octet '"') s
  let s ← skipString s
  colon s

def lead : Bracket → Bytes → Except Fault Bytes
  | .square, s => .ok s
  | .curly, s => key s

def scalar : Bytes → Except Fault Bytes
  | [] => .error .ended
  | b :: s =>
    if b = octet 'n' then word restOfNull s
    else if b = octet 't' then word restOfTrue s
    else if b = octet 'f' then word restOfFalse s
    else if b = octet '-' then Numeral.skip true s
    else if Numeral.isDigit b then Numeral.skip false (b :: s)
    else if b = octet '"' then skipString s
    else .error .malformed

def opening? (b : UInt8) : Option Bracket :=
  if b = octet '[' then some .square
  else if b = octet '\x7b' then some .curly
  else none

mutual

/-- Passes over a value and then out of the brackets that are open around it. One unit of fuel
covers each octet. -/
def value : Nat → List Bracket → Bytes → Except Fault Bytes
  | 0, _, _ => .error .ended
  | fuel + 1, around, s =>
    match skipSpace s with
    | [] => .error .ended
    | b :: rest =>
      match opening? b with
      | none => do after fuel around (← scalar (b :: rest))
      | some bracket =>
        match skipSpace rest with
        | [] => .error .ended
        | c :: inner =>
          if c = bracket.closing then after fuel around inner
          else do value fuel (bracket :: around) (← lead bracket (c :: inner))

def after : Nat → List Bracket → Bytes → Except Fault Bytes
  | _, [], s => .ok s
  | 0, _, _ => .error .ended
  | fuel + 1, bracket :: around, s =>
    match skipSpace s with
    | [] => .error .ended
    | b :: rest =>
      if b = octet ',' then do value fuel (bracket :: around) (← lead bracket rest)
      else if b = bracket.closing then after fuel around rest
      else .error .malformed

end

end Lifecycle.Skip

def Lifecycle.Json.skip (s : Lifecycle.Bytes) : Except Lifecycle.Fault Lifecycle.Bytes :=
  Lifecycle.Skip.value (s.length + 1) [] s
