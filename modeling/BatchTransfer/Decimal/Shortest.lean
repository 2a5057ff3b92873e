import BatchTransfer.Decimal.Numeral
import BatchTransfer.Text.Blank

/-!
# The shortest decimal of a double

A positive finite double `m * 2^q` stands for all real numbers that round to it, an interval
around its value. Its shortest decimal is a point of the coarsest decimal grid that has one in
the interval, and of two such points the one nearer to the value.
-/

namespace BatchTransfer.Decimal

/-- A double taken apart: sign, whole significand and power of two. -/
inductive Parts where
  | finite (negative : Bool) (significand : Nat) (exponent : Int)
  | infinite (negative : Bool)
  | notANumber
  deriving DecidableEq, Repr

/-- Takes a double apart by its bits. -/
def Parts.ofFloat (x : Float) : Parts :=
  let bits : Nat := x.toBits.toNat
  let negative := bits / Nat.pow 2 63 == 1
  let field : Nat := bits / Nat.pow 2 52 % Nat.pow 2 11
  let fraction : Nat := bits % Nat.pow 2 52
  if field == 2047 then
    if fraction == 0 then .infinite negative else .notANumber
  else if field == 0 then .finite negative fraction (-1074)
  else .finite negative (fraction + Nat.pow 2 52) ((field : Int) - 1075)

/-- Which of two equally near grid points stands for the value. -/
inductive Tie where
  | up
  | toEven
  deriving DecidableEq, Repr

/-- The reals that round to a double: all numbers between `low / unit` and `high / unit`, with the
ends where `closed` is set; the double itself is `value / unit`. -/
structure Neighbourhood where
  low : Nat
  value : Nat
  high : Nat
  unit : Nat
  closed : Bool
  deriving Repr

namespace Neighbourhood

/-- The reals that round to `m * 2^q`. Below a power of two the next double is half as far away
as above it, except at the least exponent. -/
def ofParts (m : Nat) (q : Int) : Neighbourhood :=
  let below := if m == Nat.pow 2 52 && q > -1074 then 1 else 2
  let up := Nat.pow 2 (q - 2).toNat
  let unit := Nat.pow 2 (2 - q).toNat
  { low := (4 * m - below) * up, value := 4 * m * up, high := (4 * m + 2) * up, unit
    closed := m % 2 == 0 }

/-- Whether the grid point `c * 10^k` rounds to the double. -/
def holds (n : Neighbourhood) (c : Nat) (k : Int) : Bool :=
  let point := c * Nat.pow 10 k.toNat * n.unit
  let down := Nat.pow 10 (-k).toNat
  if n.closed then n.low * down ≤ point && point ≤ n.high * down
  else n.low * down < point && point < n.high * down

/-- The greatest `c` such that `c * 10^k` is at most the value. -/
def floorAt (n : Neighbourhood) (k : Int) : Nat :=
  n.value * Nat.pow 10 (-k).toNat / (n.unit * Nat.pow 10 k.toNat)

/-- Whether the value lies nearer to `(c + 1) * 10^k` than to `c * 10^k`, a tie decided as told. -/
def prefersUpper (n : Neighbourhood) (tie : Tie) (c : Nat) (k : Int) : Bool :=
  let middle := (2 * c + 1) * Nat.pow 10 k.toNat * n.unit
  let value := 2 * n.value * Nat.pow 10 (-k).toNat
  if value == middle then
    match tie with
    | .up => true
    | .toEven => c % 2 == 1
  else value > middle

/-- The point of the grid of `10^k` that stands for the double, if the grid has one. -/
def pointAt? (n : Neighbourhood) (tie : Tie) (k : Int) : Option Nat :=
  let c := n.floorAt k
  match n.holds c k, n.holds (c + 1) k with
  | true, true => some (if n.prefersUpper tie c k then c + 1 else c)
  | true, false => some c
  | false, true => some (c + 1)
  | false, false => none

/-- The exponent of the first decimal digit of the value. -/
def decimalExponent (n : Neighbourhood) : Int :=
  let e : Int := (digits n.value).length - (digits n.unit).length
  if n.unit * Nat.pow 10 e.toNat ≤ n.value * Nat.pow 10 (-e).toNat then e else e - 1

/-- The first of the grids from `10^k` downwards that has a point for the double, with that
point. -/
def firstPoint (n : Neighbourhood) (tie : Tie) : Nat → Int → Nat × Int
  | 0, k => (n.floorAt k, k)
  | more + 1, k =>
      match n.pointAt? tie k with
      | some c => (c, k)
      | none => firstPoint n tie more (k - 1)

end Neighbourhood

/-- A decimal number: its digits without trailing zeros, and the power of ten of the first. -/
structure Shortest where
  digits : List Char
  exponent : Int
  deriving DecidableEq, Repr

/-- The shortest decimal of the positive double `m * 2^q`; zero has the single digit 0. -/
def Shortest.ofParts (tie : Tie) (m : Nat) (q : Int) : Shortest :=
  if m = 0 then ⟨['0'], 0⟩
  else
    let n := Neighbourhood.ofParts m q
    let (c, k) := n.firstPoint tie 17 n.decimalExponent
    let ds := Decimal.digits c
    ⟨Text.dropEndWhile (· == '0') ds, k + ds.length - 1⟩

end BatchTransfer.Decimal
