import BatchTransfer.Text.Caseless

/-!
# Reading and writing decimal numerals

Whole numbers are written with the digits of their value and read with an optional sign and a
range. A numeral with a fraction or an exponent stands for a rational number, and its value as a
floating-point number is the nearest double.
-/

namespace BatchTransfer.Decimal

open BatchTransfer.Text

/-- The value of one decimal digit. -/
def digitValue (c : Char) : Nat :=
  c.toNat - '0'.toNat

/-- The number that the digits spell. -/
def ofDigits (cs : List Char) : Nat :=
  cs.foldl (fun n c => 10 * n + digitValue c) 0

/-- The decimal digits of a number, `0` for zero. -/
def digits (n : Nat) : List Char :=
  Nat.toDigits 10 n

/-- The digits of a number, with zeros in front up to a width. -/
def padded (width n : Nat) : List Char :=
  List.replicate (width - (digits n).length) '0' ++ digits n

/-- The text of a whole number: its digits after a minus sign where it is negative. -/
def integerChars : Int → List Char
  | .ofNat n => digits n
  | .negSucc n => '-' :: digits (n + 1)

/-- The text of a whole number. -/
def integerText (i : Int) : String :=
  String.ofList (integerChars i)

/-- A range of whole numbers, both ends included. -/
structure Range where
  low : Int
  high : Int
  deriving DecidableEq, Repr

/-- Whether the range holds the number. -/
def Range.contains (r : Range) (i : Int) : Bool :=
  r.low ≤ i && i ≤ r.high

/-- The whole numbers of 64 bits with a sign. -/
def signed64 : Range := ⟨-9223372036854775808, 9223372036854775807⟩

/-- The whole numbers of 64 bits without a sign. -/
def unsigned64 : Range := ⟨0, 18446744073709551615⟩

/-- Splits an optional sign off; the first part says whether it is a minus. -/
def splitSign : List Char → Bool × List Char
  | '-' :: cs => (true, cs)
  | '+' :: cs => (false, cs)
  | cs => (false, cs)

/-- Reads one or more digits that make up the whole text. -/
def readDigits? (cs : List Char) : Option Nat :=
  if cs.isEmpty || !cs.all isDigit then none else some (ofDigits cs)

/-- Reads an optional sign and one or more digits whose value lies in the range. -/
def readInteger? (range : Range) (cs : List Char) : Option Int := do
  let (negative, rest) := splitSign cs
  let n ← readDigits? rest
  let i : Int := if negative then -n else n
  if range.contains i then some i else none

/-- A numeral with a fraction or exponent: the value is the significand times a power of ten. -/
structure Numeral where
  negative : Bool
  significand : Nat
  scale : Int
  deriving DecidableEq, Repr

namespace Numeral

/-- Reads an exponent: nothing, or the letter `e`, an optional sign and one or more digits. -/
def readExponent? : List Char → Option Int
  | [] => some 0
  | c :: cs =>
      if c == 'e' || c == 'E' then do
        let (negative, rest) := splitSign cs
        let n ← readDigits? rest
        some (if negative then -n else n)
      else none

/-- Reads a numeral: an optional sign, digits with at most one point among or around them, and an
optional exponent. At least one digit is needed. -/
def read? (cs : List Char) : Option Numeral := do
  let (negative, rest) := splitSign cs
  let whole := rest.takeWhile isDigit
  let afterWhole := rest.dropWhile isDigit
  let (fraction, tail) :=
    match afterWhole with
    | '.' :: r => (r.takeWhile isDigit, r.dropWhile isDigit)
    | r => ([], r)
  if whole.isEmpty && fraction.isEmpty then none
  else do
    let exponent ← readExponent? tail
    some ⟨negative, ofDigits (whole ++ fraction), exponent - fraction.length⟩

/-- The double nearest to the numeral. A value of 10^310 or more is infinite and one below 10^-330
is zero, so the power of ten is only ever formed for exponents of moderate size. -/
def toFloat (n : Numeral) : Float :=
  let size : Int := (digits n.significand).length + n.scale
  let magnitude : Float :=
    if n.significand = 0 || size < -330 then 0.0
    else if size > 310 then 1.0 / 0.0
    else Float.ofScientific n.significand (n.scale < 0) n.scale.natAbs
  if n.negative then -magnitude else magnitude

end Numeral

/-- Reads a decimal text as the nearest double, where that is finite. -/
def readFloat? (cs : List Char) : Option Float := do
  let n ← Numeral.read? cs
  let x := n.toFloat
  if x.isFinite then some x else none

end BatchTransfer.Decimal
