import BatchTransfer.Text.Utf8

/-!
# Percent-encoding

A byte is written as a percent sign and two hexadecimal digits in upper case. Which characters are
written so is up to each format; characters beyond ASCII always are.
-/

namespace BatchTransfer.Text

/-- A hexadecimal digit in upper case. -/
def upperHexDigit (n : Nat) : Char :=
  if n < 10 then Char.ofNat ('0'.toNat + n) else Char.ofNat ('A'.toNat + (n - 10))

/-- The three characters that stand for a byte. -/
def percentByte (b : UInt8) : List Char :=
  ['%', upperHexDigit (b.toNat / 16), upperHexDigit (b.toNat % 16)]

/-- The text with the characters that satisfy `p`, and those beyond ASCII, written byte by byte. -/
def percentEncode (p : Char → Bool) (cs : List Char) : List Char :=
  cs.flatMap fun c =>
    if p c || c.toNat ≥ 0x80 then (String.utf8EncodeChar c).flatMap percentByte else [c]

/-- The value of a hexadecimal digit. -/
def hexDigitValue? (c : Char) : Option Nat :=
  if '0' ≤ c && c ≤ '9' then some (c.toNat - '0'.toNat)
  else if 'a' ≤ c && c ≤ 'f' then some (c.toNat - 'a'.toNat + 10)
  else if 'A' ≤ c && c ≤ 'F' then some (c.toNat - 'A'.toNat + 10)
  else none

/-- The byte that two hexadecimal digits spell. -/
def hexByte? (high low : Char) : Option UInt8 := do
  some (UInt8.ofNat ((← hexDigitValue? high) * 16 + (← hexDigitValue? low)))

/-- The bytes of the text with every percent sign and two digits read as one byte. A percent sign
without two digits stands for itself. -/
def percentDecode : List Char → List UInt8
  | '%' :: high :: low :: cs =>
      match hexByte? high low with
      | some b => b :: percentDecode cs
      | none => String.utf8EncodeChar '%' ++ percentDecode (high :: low :: cs)
  | c :: cs => String.utf8EncodeChar c ++ percentDecode cs
  | [] => []

/-- The control characters of ASCII. -/
def isControl (c : Char) : Bool :=
  c.toNat < 0x20 || c.toNat == 0x7F

end BatchTransfer.Text
