import Lifecycle.Json
import Lifecycle.Number.Shortest
import Lifecycle.Text.Utf8

/-! The compact text of a JSON value: no blanks, members in the order in which they stand, and in
strings an escape for the quote, the backslash and the controls below U+0020 only. -/

namespace Lifecycle

namespace Json

def hexDigit (n : Nat) : Char := Nat.digitChar n

def escapeChar (c : Char) : List Char :=
  if c = '"' then ['\\', '"']
  else if c = '\\' then ['\\', '\\']
  else if c = '\x08' then ['\\', 'b']
  else if c = '\x0c' then ['\\', 'f']
  else if c = '\n' then ['\\', 'n']
  else if c = '\r' then ['\\', 'r']
  else if c = '\t' then ['\\', 't']
  else if c.toNat < 0x20 then
    ['\\', 'u', '0', '0', hexDigit (c.toNat / 16), hexDigit (c.toNat % 16)]
  else [c]

def stringChars (s : String) : List Char := '"' :: s.toList.flatMap escapeChar ++ ['"']

def integerChars (n : Int) : List Char :=
  if n < 0 then '-' :: Nat.toDigits 10 n.natAbs else Nat.toDigits 10 n.natAbs

end Json

def Number.chars : Number → List Char
  | integer n => Json.integerChars n
  | float x => x.chars

namespace Json

mutual

def chars : Json → List Char
  | null => ['n', 'u', 'l', 'l']
  | bool true => ['t', 'r', 'u', 'e']
  | bool false => ['f', 'a', 'l', 's', 'e']
  | number n => n.chars
  | string s => stringChars s
  | array xs => '[' :: elementsChars xs
  | object xs => '\x7b' :: membersChars xs

def elementsChars : List Json → List Char
  | [] => [']']
  | x :: xs => chars x ++ moreElementsChars xs

def moreElementsChars : List Json → List Char
  | [] => [']']
  | x :: xs => ',' :: chars x ++ moreElementsChars xs

def membersChars : List (String × Json) → List Char
  | [] => ['\x7d']
  | (k, x) :: xs => stringChars k ++ ':' :: chars x ++ moreMembersChars xs

def moreMembersChars : List (String × Json) → List Char
  | [] => ['\x7d']
  | (k, x) :: xs => ',' :: stringChars k ++ ':' :: chars x ++ moreMembersChars xs

end

def text (v : Json) : String := String.ofList v.chars

def bytes (v : Json) : List UInt8 := Text.Utf8.encode v.chars

end Json

end Lifecycle
