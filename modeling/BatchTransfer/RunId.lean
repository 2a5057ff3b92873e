import BatchTransfer.Text.Percent

/-!
# Run identifiers

Everything that a run leaves behind carries the identifier of the run, so that two runs do not
disturb each other. An identifier is written in full as groups of hexadecimal digits, or in short as
its first group.
-/

namespace BatchTransfer

/-- The identifier of a run. -/
structure RunId where
  number : Nat
  deriving DecidableEq, Repr, Inhabited

namespace RunId

/-- A hexadecimal digit in lower case. -/
def hexDigit (n : Nat) : Char := (Text.upperHexDigit n).toLower

/-- The last `places` hexadecimal digits of a number. -/
def hexDigits : Nat → Nat → List Char
  | 0, _ => []
  | places + 1, n => hexDigits places (n / 16) ++ [hexDigit (n % 16)]

/-- The first group of digits. -/
def shortChars (r : RunId) : List Char := hexDigits 8 r.number

/-- The first group of digits. -/
def short (r : RunId) : String := String.ofList r.shortChars

/-- All groups of digits. -/
def full (r : RunId) : String :=
  String.ofList (r.shortChars ++ "-0000-4000-8000-".toList ++ hexDigits 12 (r.number / Nat.pow 16 8))

/-- The identifier of the next run. -/
def next (r : RunId) : RunId := ⟨r.number + 1⟩

end RunId

end BatchTransfer
