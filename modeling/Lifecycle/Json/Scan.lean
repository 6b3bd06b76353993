import Lifecycle.Json.Fault

/-! The tokens of a document, read from its octets: blanks, literal words, strings and the
punctuation between members and elements. A string is checked to be UTF-8 only where it closes,
so a fault inside it that lies further left is reported first. -/

namespace Lifecycle

abbrev Bytes := List UInt8

namespace Scan

def octet (c : Char) : UInt8 := c.toNat.toUInt8

def isSpace (b : UInt8) : Bool :=
  b == octet ' ' || b == octet '\t' || b == octet '\n' || b == octet '\r'

def skipSpace (s : Bytes) : Bytes := s.dropWhile isSpace

def word : Bytes → Bytes → Except Fault Bytes
  | [], s => .ok s
  | _ :: _, [] => .error .ended
  | w :: ws, b :: s => if w = b then word ws s else .error .malformed

def restOfNull : Bytes := ['u', 'l', 'l'].map octet

def restOfTrue : Bytes := ['r', 'u', 'e'].map octet

def restOfFalse : Bytes := ['a', 'l', 's', 'e'].map octet

def hexValue? (b : UInt8) : Option Nat :=
  if octet '0' ≤ b ∧ b ≤ octet '9' then some (b.toNat - 48)
  else if octet 'a' ≤ b ∧ b ≤ octet 'f' then some (b.toNat - 87)
  else if octet 'A' ≤ b ∧ b ≤ octet 'F' then some (b.toNat - 55)
  else none

/-- Four hexadecimal digits; fewer octets than that are the end of the input. -/
def hexQuad : Bytes → Except Fault (Nat × Bytes)
  | a :: b :: c :: d :: s =>
    match hexValue? a, hexValue? b, hexValue? c, hexValue? d with
    | some a, some b, some c, some d => .ok (((a * 16 + b) * 16 + c) * 16 + d, s)
    | _, _, _, _ => .error .malformed
  | _ => .error .ended

def exactly (b : UInt8) (s : Bytes) : Except Fault Bytes := word [b] s

/-- The character of a hexadecimal escape: one code unit, or a pair of surrogates that stands for
a character beyond U+FFFF. -/
def unicodeEscape (s : Bytes) : Except Fault (Char × Bytes) := do
  let (high, s) ← hexQuad s
  if 0xDC00 ≤ high ∧ high ≤ 0xDFFF then .error .malformed
  else if high < 0xD800 ∨ 0xDBFF < high then return (Char.ofNat high, s)
  else
    let s ← exactly (octet '\\') s
    let s ← exactly (octet 'u') s
    let (low, s) ← hexQuad s
    if low < 0xDC00 ∨ 0xDFFF < low then .error .malformed
    else return (Char.ofNat (0x10000 + (high - 0xD800) * 0x400 + (low - 0xDC00)), s)

def shortEscapes : List (Char × Char) :=
  [('"', '"'), ('\\', '\\'), ('/', '/'), ('b', '\x08'), ('f', '\x0c'), ('n', '\n'),
   ('r', '\r'), ('t', '\t')]

def shortEscape? (b : UInt8) : Option Char :=
  (shortEscapes.find? fun (letter, _) => octet letter == b).map (·.2)

def escape : Bytes → Except Fault (Bytes × Bytes)
  | [] => .error .ended
  | b :: s =>
    if b = octet 'u' then do
      let (c, s) ← unicodeEscape s
      return (Text.Utf8.encodeChar c, s)
    else match shortEscape? b with
      | some c => .ok ([octet c], s)
      | none => .error .malformed

/-- The octets of a string up to its closing quote, those read so far being given in reverse. One
unit of fuel covers each octet. -/
def stringOctets : Nat → Bytes → Bytes → Except Fault (Bytes × Bytes)
  | 0, _, _ => .error .ended
  | _, _, [] => .error .ended
  | fuel + 1, done, b :: s =>
    if b = octet '"' then .ok (done.reverse, s)
    else if b = octet '\\' then do
      let (octets, s) ← escape s
      stringOctets fuel (octets.reverse ++ done) s
    else if b < 0x20 then .error .malformed
    else stringOctets fuel (b :: done) s

def string (s : Bytes) : Except Fault (String × Bytes) := do
  let (octets, s) ← stringOctets s.length [] s
  match Text.Utf8.decode? octets with
  | some cs => return (String.ofList cs, s)
  | none => .error .malformed

/-- Passes over an escape: its letter and its hexadecimal digits are checked, no more. -/
def skipEscape : Bytes → Except Fault Bytes
  | [] => .error .ended
  | b :: s =>
    if b = octet 'u' then do
      let (_, s) ← hexQuad s
      return s
    else match shortEscape? b with
      | some _ => .ok s
      | none => .error .malformed

def skipOctets : Nat → Bytes → Except Fault Bytes
  | 0, _ => .error .ended
  | _, [] => .error .ended
  | fuel + 1, b :: s =>
    if b = octet '"' then .ok s
    else if b = octet '\\' then do skipOctets fuel (← skipEscape s)
    else if b < 0x20 then .error .malformed
    else skipOctets fuel s

def skipString (s : Bytes) : Except Fault Bytes := skipOctets s.length s

def mark (b : UInt8) (s : Bytes) : Except Fault Bytes := exactly b (skipSpace s)

def colon (s : Bytes) : Except Fault Bytes := mark (octet ':') s

def key (s : Bytes) : Except Fault (String × Bytes) :=
  match skipSpace s with
  | [] => .error .ended
  | b :: s => if b = octet '"' then string s else .error .malformed

/-- The key of the next member, or none where the object closes. The brace stays unread. -/
def nextKey (first : Bool) (s : Bytes) : Except Fault (Option String × Bytes) :=
  let further (s : Bytes) : Except Fault (Option String × Bytes) := do
    let (k, s) ← key s
    return (some k, s)
  match skipSpace s with
  | [] => .error .ended
  | b :: s =>
    if b = octet '\x7d' then .ok (none, b :: s)
    else if first then further (b :: s)
    else if b = octet ',' then further s
    else .error .malformed

/-- Whether a further element follows, and the octets from there on: its own, or the bracket that
closes the array. -/
def nextElement (first : Bool) (s : Bytes) : Except Fault (Bool × Bytes) :=
  match skipSpace s with
  | [] => .error .ended
  | b :: s =>
    if b = octet ']' then .ok (false, b :: s)
    else if first then .ok (true, b :: s)
    else if b = octet ',' then
      match skipSpace s with
      | [] => .error .ended
      | b :: s => if b = octet ']' then .error .malformed else .ok (true, b :: s)
    else .error .malformed

def closeObject (s : Bytes) : Except Fault Bytes := mark (octet '\x7d') s

def closeArray (s : Bytes) : Except Fault Bytes := mark (octet ']') s

end Scan

end Lifecycle
