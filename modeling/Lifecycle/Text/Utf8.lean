/-! The octets of a text in UTF-8. `encode` writes one to four octets for a character, and
`decode?` reads them back, refusing what no text encodes to: stray or missing tail octets,
overlong forms, surrogates and code points above U+10FFFF. -/

namespace Lifecycle.Text.Utf8

def encodeChar (c : Char) : List UInt8 :=
  let n := c.toNat
  if n < 0x80 then [n.toUInt8]
  else if n < 0x800 then [(0xC0 + n / 0x40).toUInt8, (0x80 + n % 0x40).toUInt8]
  else if n < 0x10000 then
    [(0xE0 + n / 0x1000).toUInt8, (0x80 + n / 0x40 % 0x40).toUInt8, (0x80 + n % 0x40).toUInt8]
  else
    [(0xF0 + n / 0x40000).toUInt8, (0x80 + n / 0x1000 % 0x40).toUInt8,
     (0x80 + n / 0x40 % 0x40).toUInt8, (0x80 + n % 0x40).toUInt8]

def encode (s : List Char) : List UInt8 := s.flatMap encodeChar

def tailBits? (b : UInt8) : Option Nat :=
  if 0x80 ≤ b.toNat ∧ b.toNat < 0xC0 then some (b.toNat - 0x80) else none

/-- A character written with more than one octet: not below the least code point that needs
that many, and not a surrogate. -/
def wideChar? (least n : Nat) : Option Char :=
  if least ≤ n ∧ n.isValidChar then some (Char.ofNat n) else none

def decode? : List UInt8 → Option (List Char)
  | [] => some []
  | a :: r =>
    if a.toNat < 0x80 then (decode? r).map (Char.ofNat a.toNat :: ·)
    else if a.toNat < 0xC0 then none
    else if a.toNat < 0xE0 then
      match r with
      | b :: r => do
        let c ← wideChar? 0x80 ((a.toNat - 0xC0) * 0x40 + (← tailBits? b))
        (decode? r).map (c :: ·)
      | _ => none
    else if a.toNat < 0xF0 then
      match r with
      | b :: b' :: r => do
        let c ← wideChar? 0x800
          (((a.toNat - 0xE0) * 0x40 + (← tailBits? b)) * 0x40 + (← tailBits? b'))
        (decode? r).map (c :: ·)
      | _ => none
    else if a.toNat < 0xF8 then
      match r with
      | b :: b' :: b'' :: r => do
        let c ← wideChar? 0x10000
          ((((a.toNat - 0xF0) * 0x40 + (← tailBits? b)) * 0x40 + (← tailBits? b')) * 0x40 +
            (← tailBits? b''))
        (decode? r).map (c :: ·)
      | _ => none
    else none

theorem encode_cons (c : Char) (s : List Char) : encode (c :: s) = encodeChar c ++ encode s := rfl

theorem encode_append (s t : List Char) : encode (s ++ t) = encode s ++ encode t := by
  simp [encode]

end Lifecycle.Text.Utf8
