import BatchTransfer.Json.Printer
import BatchTransfer.Json.Reader
import BatchTransfer.Text.Blank
import BatchTransfer.Text.Pieces

/-!
# Lines of JSON

A text holds one JSON object a line. Lines of blanks are passed over, and the first line that is no
object is reported with its number.
-/

namespace BatchTransfer.Lines

open BatchTransfer.Text

/-- A line without the carriage return at its end. -/
def withoutReturn (line : List Char) : List Char :=
  match line.reverse with
  | '\r' :: rest => rest.reverse
  | _ => line

/-- The lines of a text. What follows the last line feed is a line if there is anything. A carriage
return before a line feed belongs to the end of the line. -/
def ofChars (cs : List Char) : List (List Char) :=
  let pieces := splitPieces (· == '\n') cs
  let whole := pieces.dropLast.map withoutReturn
  match pieces.getLast? with
  | some [] => whole
  | some last => whole ++ [last]
  | none => whole

/-- The lines of a text. -/
def ofText (text : String) : List String := (ofChars text.toList).map String.ofList

/-- Whether a line holds blanks only. -/
def isBlankLine (line : String) : Bool := line.toList.all isBlank

/-- The lines that are not blank, with their numbers from one on. -/
def numbered (text : String) : List (Nat × String) :=
  ((ofText text).zipIdx.map fun (line, i) => (i + 1, line)).filter fun (_, line) =>
    !isBlankLine line

/-- Why a line is no record. -/
inductive LineFault where
  | notJson
  | notObject (value : Json)

/-- The record of a line. -/
def record (line : String) : Except LineFault Record :=
  match Json.read? line with
  | none => .error .notJson
  | some j =>
      match Record.ofJson? j with
      | some r => .ok r
      | none => .error (.notObject j)

/-- The records of lines, or the number of the first line that holds none and what it holds. -/
def recordsOf : List (Nat × String) → Except (Nat × LineFault) (List Record)
  | [] => .ok []
  | (number, line) :: rest =>
      match record line with
      | .error fault => .error (number, fault)
      | .ok r => (recordsOf rest).map (r :: ·)

/-- The records of a text. -/
def records (text : String) : Except (Nat × LineFault) (List Record) := recordsOf (numbered text)

end BatchTransfer.Lines
