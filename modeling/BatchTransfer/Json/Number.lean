import BatchTransfer.Decimal.Numeral
import BatchTransfer.Json.Basic

/-!
# Numbers in JSON texts

A number without fraction and exponent that fits 64 bits is a whole number. Every other number is
a double, computed from the digits that fit an unsigned 64-bit significand with one scaling by a
power of ten; a result beyond the greatest double is refused.
-/

namespace BatchTransfer.Json

open BatchTransfer.Text BatchTransfer.Decimal

/-- A significand of at most 64 bits and the power of ten it is scaled by. Once `full`, the digits
of a fraction are passed over. -/
structure Significand where
  value : Nat
  exponent : Int
  full : Bool
  deriving DecidableEq, Repr

namespace Significand

/-- Whether the significand with one more digit still fits 64 bits. -/
def fits (s : Significand) (c : Char) : Bool :=
  10 * s.value + digitValue c < Nat.pow 2 64

/-- Adds a digit before the point. From the first one that does not fit, digits only count. -/
def addWhole (s : Significand) (c : Char) : Significand :=
  if !s.full && s.fits c then { s with value := 10 * s.value + digitValue c }
  else { s with exponent := s.exponent + 1, full := true }

/-- Adds a digit after the point. From the first one that does not fit, digits are dropped. -/
def addFraction (s : Significand) (c : Char) : Significand :=
  if !s.full && s.fits c then
    { s with value := 10 * s.value + digitValue c, exponent := s.exponent - 1 }
  else { s with full := true }

end Significand

/-- The double of a power of ten up to 10^308. -/
def powerOfTen (n : Nat) : Float :=
  Float.ofScientific 1 false n

/-- Divides by 10^308 until the exponent left is one that `powerOfTen` has, at most as often as
allowed. -/
def scaleDown : Nat → Float → Nat → Float
  | 0, x, _ => x
  | more + 1, x, n =>
      if n ≤ 308 then x / powerOfTen n
      else if x == 0.0 then x
      else scaleDown more (x / powerOfTen 308) (n - 308)

/-- The double of a significand times a power of ten, if it is not too large. -/
def scaled? (significand : Nat) (exponent : Int) : Option Float :=
  let x := significand.toUInt64.toFloat
  if exponent < 0 then some (scaleDown 4 x exponent.natAbs)
  else if exponent.toNat ≤ 308 then
    let y := x * powerOfTen exponent.toNat
    if y.isFinite then some y else none
  else if significand = 0 then some x
  else none

/-- The digits of a number taken apart: those before the point, those after it where there is a
point, and the exponent where there is one. -/
structure NumberText where
  whole : List Char
  fraction : Option (List Char)
  exponent : Option Int
  deriving DecidableEq, Repr

/-- Takes an unsigned number apart. There is no superfluous leading zero, and at least one digit
after a point and in an exponent. -/
def NumberText.read? (cs : List Char) : Option NumberText := do
  let whole := cs.takeWhile isDigit
  let afterWhole := cs.dropWhile isDigit
  if whole.isEmpty || (whole.head? == some '0' && whole.length > 1) then none
  else
    let (fraction, tail) ←
      match afterWhole with
      | '.' :: r =>
          let digits := r.takeWhile isDigit
          if digits.isEmpty then none else some (some digits, r.dropWhile isDigit)
      | r => some (none, r)
    match tail with
    | [] => some ⟨whole, fraction, none⟩
    | _ => do
        let exponent ← Numeral.readExponent? tail
        some ⟨whole, fraction, some exponent⟩

/-- The value of a number, if it is not too large. -/
def NumberText.value? (negative : Bool) (t : NumberText) : Option Json :=
  let whole := t.whole.foldl Significand.addWhole ⟨0, 0, false⟩
  let signed (x : Float) : Json := .float (if negative then -x else x)
  match t.fraction, t.exponent with
  | none, none =>
      if whole.full then (scaled? whole.value whole.exponent).map signed
      else if !negative then some (.int whole.value)
      else if 0 < whole.value && whole.value ≤ Nat.pow 2 63 then some (.int (-whole.value))
      else some (signed whole.value.toUInt64.toFloat)
  | fraction, exponent =>
      let all := (fraction.getD []).foldl Significand.addFraction { whole with full := false }
      (scaled? all.value (all.exponent + exponent.getD 0)).map signed

/-- The value that a number text stands for, with a minus sign in front where it is negative. -/
def readNumber? : List Char → Option Json
  | '-' :: cs => (NumberText.read? cs).bind (NumberText.value? true)
  | cs => (NumberText.read? cs).bind (NumberText.value? false)

end BatchTransfer.Json
