import BatchTransfer.Json.Number
import BatchTransfer.Text.Percent

/-!
# Reading JSON

A text is first split into marks (brackets, commas, colons, and scalars), and the marks are then
read one at a time with a stack of the containers that are still open. A text is accepted as a
whole or not at all; containers may be open at most 127 deep.
-/

namespace BatchTransfer.Json

open BatchTransfer.Text BatchTransfer.Decimal

/-- A piece of a JSON text. -/
inductive Mark where
  | openObject
  | closeObject
  | openArray
  | closeArray
  | comma
  | colon
  | string (value : String)
  | scalar (value : Json)

/-- The number that four hexadecimal digits spell. -/
def hexValue4? (a b c d : Char) : Option Nat := do
  some (((← hexDigitValue? a) * 16 + (← hexDigitValue? b)) * 256 + (← hexDigitValue? c) * 16 + (← hexDigitValue? d))

/-- The character of a code that is not half of a surrogate pair. -/
def unitChar? (n : Nat) : Option Char :=
  if 0xD800 ≤ n && n ≤ 0xDFFF then none else some (Char.ofNat n)

/-- The character of a surrogate pair. -/
def pairChar? (high low : Nat) : Option Char :=
  if 0xD800 ≤ high && high ≤ 0xDBFF && 0xDC00 ≤ low && low ≤ 0xDFFF then
    some (Char.ofNat (0x10000 + (high - 0xD800) * 0x400 + (low - 0xDC00)))
  else none

/-- The character that a one-letter escape stands for. -/
def simpleEscape? (c : Char) : Option Char :=
  if c == '"' || c == '\\' || c == '/' then some c
  else if c == 'n' then some '\n'
  else if c == 'r' then some '\r'
  else if c == 't' then some '\t'
  else if c == 'b' then some '\x08'
  else if c == 'f' then some '\x0c'
  else none

/-- Reads the rest of a string behind its opening quote: its characters and what follows the
closing quote. `read` holds the characters already read, the last one first. -/
def readString? (read : List Char) : List Char → Option (List Char × List Char)
  | [] => none
  | '"' :: cs => some (read.reverse, cs)
  | '\\' :: 'u' :: a :: b :: c :: d :: cs =>
      match hexValue4? a b c d with
      | none => none
      | some n =>
          match unitChar? n with
          | some ch => readString? (ch :: read) cs
          | none =>
              match cs with
              | '\\' :: 'u' :: e :: f :: g :: h :: cs =>
                  match (hexValue4? e f g h).bind (pairChar? n) with
                  | some ch => readString? (ch :: read) cs
                  | none => none
              | _ => none
  | '\\' :: c :: cs =>
      match simpleEscape? c with
      | some ch => readString? (ch :: read) cs
      | none => none
  | c :: cs => if c.toNat < 0x20 || c == '\\' then none else readString? (c :: read) cs

/-- What follows a string is shorter than the text behind its opening quote. -/
theorem length_lt_of_readString? {read cs text rest : List Char}
    (h : readString? read cs = some (text, rest)) : rest.length < cs.length := by
  fun_induction readString? read cs <;> simp_all <;> omega

/-- A character that may stand in a number. -/
def isNumberChar (c : Char) : Bool :=
  isDigit c || c == '-' || c == '+' || c == '.' || c == 'e' || c == 'E'

/-- A blank between two marks. -/
def isSpace (c : Char) : Bool :=
  c == ' ' || c == '\t' || c == '\n' || c == '\r'

/-- The mark that a single character is. -/
def Mark.ofChar? (c : Char) : Option Mark :=
  if c == '{' then some .openObject
  else if c == '}' then some .closeObject
  else if c == '[' then some .openArray
  else if c == ']' then some .closeArray
  else if c == ',' then some .comma
  else if c == ':' then some .colon
  else none

/-- The first mark of a text and what follows it, `none` where no mark begins there. -/
def Mark.first? : List Char → Option (Mark × List Char)
  | [] => none
  | '"' :: cs => (readString? [] cs).map fun (text, rest) => (.string (String.ofList text), rest)
  | 't' :: 'r' :: 'u' :: 'e' :: cs => some (.scalar (.bool true), cs)
  | 'f' :: 'a' :: 'l' :: 's' :: 'e' :: cs => some (.scalar (.bool false), cs)
  | 'n' :: 'u' :: 'l' :: 'l' :: cs => some (.scalar .null, cs)
  | c :: cs =>
      if c == '-' || isDigit c then
        (readNumber? (c :: cs.takeWhile isNumberChar)).map fun value =>
          (.scalar value, cs.dropWhile isNumberChar)
      else (Mark.ofChar? c).map fun mark => (mark, cs)

theorem Mark.length_lt_of_first? {cs rest : List Char} {mark : Mark}
    (h : Mark.first? cs = some (mark, rest)) : rest.length < cs.length := by
  fun_cases Mark.first? cs <;> simp_all [Mark.first?]
  · obtain ⟨a, h, -⟩ := h
    have := length_lt_of_readString? h
    omega
  all_goals
    have := fun (p : Char → Bool) (l : List Char) => (List.dropWhile_suffix p (l := l)).length_le
    grind

/-- The marks of a text, if it is made of marks and blanks only. -/
def marks? (cs : List Char) : Option (List Mark) :=
  match cs with
  | [] => some []
  | c :: rest =>
      if isSpace c then marks? rest
      else
        match _h : Mark.first? (c :: rest) with
        | none => none
        | some (mark, after) => (marks? after).map (mark :: ·)
termination_by cs.length
decreasing_by
  · simp
  · exact Mark.length_lt_of_first? _h

/-- A container that is still open: the items read, the last one first, or the fields read and the
name whose value is awaited. -/
inductive Frame where
  | array (items : List Json)
  | object (fields : List (String × Json)) (name : String)

/-- How far a text has been read. Every state but the last carries the open containers, the
innermost first. -/
inductive Reading where
  | beforeValue (stack : List Frame)
  | firstItem (stack : List Frame)
  | firstName (stack : List Frame)
  | beforeName (fields : List (String × Json)) (stack : List Frame)
  | beforeColon (fields : List (String × Json)) (name : String) (stack : List Frame)
  | afterValue (top : Frame) (stack : List Frame)
  | finished (value : Json)

namespace Reading

/-- Takes note of a complete value. -/
def complete (value : Json) : List Frame → Reading
  | [] => .finished value
  | .array items :: stack => .afterValue (.array (value :: items)) stack
  | .object fields name :: stack => .afterValue (.object (putField name value fields) name) stack

/-- The greatest number of containers that may be open at a time. -/
def maxDepth : Nat := 127

/-- Begins a value with a mark. -/
def begin? (stack : List Frame) : Mark → Option Reading
  | .openObject => if stack.length < maxDepth then some (.firstName stack) else none
  | .openArray => if stack.length < maxDepth then some (.firstItem stack) else none
  | .string s => some (complete (.string s) stack)
  | .scalar v => some (complete v stack)
  | _ => none

/-- Reads one mark. -/
def step? : Reading → Mark → Option Reading
  | .beforeValue stack, mark => begin? stack mark
  | .firstItem stack, .closeArray => some (complete (.array []) stack)
  | .firstItem stack, mark => begin? (.array [] :: stack) mark
  | .firstName stack, .closeObject => some (complete (.object []) stack)
  | .firstName stack, .string s => some (.beforeColon [] s stack)
  | .beforeName fields stack, .string s => some (.beforeColon fields s stack)
  | .beforeColon fields name stack, .colon => some (.beforeValue (.object fields name :: stack))
  | .afterValue (.array items) stack, .comma => some (.beforeValue (.array items :: stack))
  | .afterValue (.array items) stack, .closeArray =>
      some (complete (.array items.reverse) stack)
  | .afterValue (.object fields _) stack, .comma => some (.beforeName fields stack)
  | .afterValue (.object fields _) stack, .closeObject => some (complete (.object fields) stack)
  | _, _ => none

/-- The value, if it is complete. -/
def value? : Reading → Option Json
  | .finished v => some v
  | _ => none

end Reading

/-- The value that a text stands for. -/
def readChars? (cs : List Char) : Option Json := do
  let marks ← marks? cs
  let reading ← marks.foldlM Reading.step? (.beforeValue [])
  reading.value?

/-- The value that a text stands for. -/
def read? (text : String) : Option Json :=
  readChars? text.toList

/-- The object that a text stands for. -/
def readRecord? (text : String) : Option Record :=
  (read? text).bind Record.ofJson?

end BatchTransfer.Json
