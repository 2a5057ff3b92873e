import BatchTransfer.Decimal.Shortest

/-!
# Layouts of floating-point text

A layout says how the shortest decimal of a double is written: between which exponents all digits
are written out, whether a whole number keeps a point and a zero, and which of two equally short
decimals is chosen. Two layouts are in use, one for option values and one for JSON.
-/

namespace BatchTransfer.Decimal

/-- The decisions of a format for floating-point text. Without `positional` every number is
written out in full; with it, only those whose first digit has an exponent in the range. -/
structure Layout where
  positional : Option Range
  keepsFraction : Bool
  tie : Tie
  deriving Repr

/-- All digits written out, with zeros up to the point. -/
def positionalChars (d : Shortest) : List Char :=
  if d.exponent < 0 then
    '0' :: '.' :: (List.replicate (-d.exponent - 1).toNat '0' ++ d.digits)
  else
    let whole := d.exponent.toNat + 1
    if d.digits.length ≤ whole then d.digits ++ List.replicate (whole - d.digits.length) '0'
    else d.digits.take whole ++ '.' :: d.digits.drop whole

/-- One digit, the others after a point, and a signed exponent. -/
def scientificChars (d : Shortest) : List Char :=
  let fraction := d.digits.drop 1
  let mantissa := d.digits.take 1 ++ (if fraction.isEmpty then [] else '.' :: fraction)
  mantissa ++ 'e' :: (if d.exponent < 0 then '-' else '+') :: digits d.exponent.natAbs

namespace Layout

/-- The text of a positive decimal. -/
def magnitudeChars (l : Layout) (d : Shortest) : List Char :=
  let written :=
    match l.positional with
    | none => true
    | some range => range.contains d.exponent
  if written then
    let cs := positionalChars d
    if l.keepsFraction && !cs.contains '.' then cs ++ ['.', '0'] else cs
  else scientificChars d

/-- The text of a double. -/
def chars (l : Layout) (x : Float) : List Char :=
  match Parts.ofFloat x with
  | .notANumber => ['N', 'a', 'N']
  | .infinite negative => (if negative then ['-'] else []) ++ ['i', 'n', 'f']
  | .finite negative m q =>
      (if negative then ['-'] else []) ++ l.magnitudeChars (Shortest.ofParts l.tie m q)

/-- The text of a double. -/
def text (l : Layout) (x : Float) : String :=
  String.ofList (l.chars x)

end Layout

/-- A number in a message: never an exponent, and no point for a whole number. -/
def plainLayout : Layout := ⟨none, false, .up⟩

/-- A floating-point option value: never an exponent, and always a point. -/
def optionLayout : Layout := ⟨none, true, .up⟩

/-- A floating-point number in JSON: written out from 0.00001 to below 10^16, and always with a
point or an exponent. -/
def jsonLayout : Layout := ⟨some ⟨-5, 15⟩, true, .toEven⟩

end BatchTransfer.Decimal
