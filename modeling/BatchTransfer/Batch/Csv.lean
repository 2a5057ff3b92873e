import BatchTransfer.Batch.Basic

/-!
# Batches as comma-separated values

The first line holds the names of the columns and every further line a row. A field is put in
quotes, with the quotes inside it doubled, where it holds a comma, a quote or a line break. Null is
the empty field, a text stands for itself, and any other value for its JSON text.
-/

namespace BatchTransfer.Csv

/-- A character that a field can hold only inside quotes. -/
def needsQuotes (c : Char) : Bool :=
  c == ',' || c == '"' || c == '\n' || c == '\r'

/-- The characters with every quote doubled. -/
def doubleQuotes (cs : List Char) : List Char :=
  cs.flatMap fun c => if c == '"' then ['"', '"'] else [c]

/-- A field as it is written. -/
def field (cs : List Char) : List Char :=
  if cs.any needsQuotes then '"' :: (doubleQuotes cs ++ ['"']) else cs

/-- The text of a value. -/
def cellText : Json → List Char
  | .null => []
  | .string s => s.toList
  | value => Json.chars value

/-- Fields between commas, and the end of the line. -/
def line (texts : List (List Char)) : List Char :=
  [','].intercalate (texts.map field) ++ ['\n']

/-- The batch as comma-separated values. -/
def chars (b : Batch) : List Char :=
  line (b.schema.names.map String.toList) ++ b.rows.flatMap fun row => line (row.map cellText)

/-- The batch as comma-separated values. -/
def text (b : Batch) : String := String.ofList (chars b)

end BatchTransfer.Csv
