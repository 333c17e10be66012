import Parley.Text.Utf8

/-!
# Percent-encoding

A value inside a URL is written byte by byte: letters, digits and the four marks `-`, `_`, `.`
and `~` stand for themselves, and every other byte is written as a percent sign and two upper-case
hexadecimal digits. `decode?` reads that form back.
-/

namespace Parley.Text.Percent

/-- The bytes that stand for themselves. -/
def isUnreserved (b : UInt8) : Bool :=
  let n := b.toNat
  (0x30 ≤ n && n ≤ 0x39) || (0x41 ≤ n && n ≤ 0x5A) || (0x61 ≤ n && n ≤ 0x7A) ||
    n == 0x2D || n == 0x5F || n == 0x2E || n == 0x7E

/-- The upper-case hexadecimal digit of a number below 16. -/
def hexDigit (n : Nat) : Char :=
  if n < 10 then Char.ofNat (0x30 + n) else Char.ofNat (0x41 + n - 10)

def escape (b : UInt8) : List Char := ['%', hexDigit (b.toNat / 16), hexDigit (b.toNat % 16)]

def encodeByte (b : UInt8) : List Char :=
  if isUnreserved b then [Char.ofNat b.toNat] else escape b

/-- The text with all but its unreserved bytes escaped. -/
def encode (s : String) : String := String.ofList ((bytes s).flatMap encodeByte)

def hexValue (c : Char) : Option Nat :=
  let n := c.toNat
  if 0x30 ≤ n ∧ n ≤ 0x39 then some (n - 0x30)
  else if 0x41 ≤ n ∧ n ≤ 0x46 then some (n - 0x41 + 10)
  else if 0x61 ≤ n ∧ n ≤ 0x66 then some (n - 0x61 + 10)
  else none

/-- The bytes that an escaped text stands for; a character that is not ASCII or an escape
without its two digits stands for none. -/
def decodeBytes : List Char → Option (List UInt8)
  | [] => some []
  | '%' :: h :: l :: rest => do
    let hi ← hexValue h
    let lo ← hexValue l
    return UInt8.ofNat (hi * 16 + lo) :: (← decodeBytes rest)
  | c :: rest =>
    if c = '%' ∨ 0x80 ≤ c.toNat then none else (decodeBytes rest).map (UInt8.ofNat c.toNat :: ·)

/-- The text that a percent-encoded text stands for. -/
def decode? (s : String) : Option String := decodeBytes s.toList >>= ofBytes?

end Parley.Text.Percent
