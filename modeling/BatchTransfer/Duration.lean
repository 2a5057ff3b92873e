import BatchTransfer.Decimal.Numeral
import BatchTransfer.Text.Blank

/-!
# Lengths of time

Lengths of time are whole numbers of microseconds. Delays and clocks count whole milliseconds.
-/

namespace BatchTransfer

open BatchTransfer.Decimal

/-- A length of time. -/
structure Duration where
  micros : Nat
  deriving DecidableEq, Repr, Inhabited

namespace Duration

/-- A number of milliseconds. -/
def ofMillis (n : Nat) : Duration := ⟨1000 * n⟩

/-- A number of seconds. -/
def ofSeconds (n : Nat) : Duration := ⟨1000000 * n⟩

/-- The whole milliseconds of a length of time. -/
def millis (d : Duration) : Nat := d.micros / 1000

@[simp]
theorem millis_ofMillis (n : Nat) : (ofMillis n).millis = n := by
  simp [ofMillis, millis]

/-- A whole number and a decimal fraction of `places` digits, without trailing zeros. -/
def withFraction (whole fraction places : Nat) : List Char :=
  let ds := Text.dropEndWhile (· == '0') (padded places fraction)
  digits whole ++ (if ds.isEmpty then [] else '.' :: ds)

/-- The length of time in the largest unit of which it holds a whole one. -/
def display (d : Duration) : String :=
  if d.micros = 0 then "0ns"
  else if d.micros ≥ 1000000 then
    String.ofList (withFraction (d.micros / 1000000) (d.micros % 1000000) 6 ++ ['s'])
  else if d.micros ≥ 1000 then
    String.ofList (withFraction (d.micros / 1000) (d.micros % 1000) 3 ++ ['m', 's'])
  else String.ofList (digits d.micros ++ ['µ', 's'])

end Duration

end BatchTransfer
