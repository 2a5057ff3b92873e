/-!
# Comparison without regard to letter case

Keywords, booleans and choices are matched with the letters A to Z and a to z taken as equal;
every other character stands for itself only.
-/

namespace BatchTransfer.Text

/-- Equality up to the case of ASCII letters. -/
def equalFold (a b : String) : Bool :=
  a.toList.map Char.toLower == b.toList.map Char.toLower

@[simp]
theorem equalFold_self (a : String) : equalFold a a = true := by
  simp [equalFold]

/-- Comparison without case does not depend on the order of its arguments. -/
theorem equalFold_comm (a b : String) : equalFold a b = equalFold b a := by
  simp only [equalFold, Bool.beq_comm]

/-- A letter of the English alphabet. -/
def isLetter (c : Char) : Bool :=
  ('a' ≤ c && c ≤ 'z') || ('A' ≤ c && c ≤ 'Z')

/-- A decimal digit. -/
def isDigit (c : Char) : Bool :=
  '0' ≤ c && c ≤ '9'

end BatchTransfer.Text
