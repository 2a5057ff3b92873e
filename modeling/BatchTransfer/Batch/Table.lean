import BatchTransfer.Batch.Basic

/-!
# Batches as text tables

A table has a border, a line of column names, and a line a row with every cell flush right. The
vertical form has a block a row, with one line a column. Cells that are too long are cut.
-/

namespace BatchTransfer.Table

/-- The text of a value. -/
def cellText : Json → List Char
  | .null => "null".toList
  | .string s => s.toList
  | value => Json.chars value

/-- A text cut to at most `limit` characters; zero means no limit. A limit of four or more leaves
room for three dots. -/
def cut (limit : Nat) (cs : List Char) : List Char :=
  if limit = 0 ∨ cs.length ≤ limit then cs
  else if limit < 4 then cs.take limit
  else cs.take (limit - 3) ++ "...".toList

/-- A cell of the table. -/
def cell (limit : Nat) (value : Json) : List Char := cut limit (cellText value)

/-- Blanks up to a width. -/
def blanks (width : Nat) (cs : List Char) : List Char := List.replicate (width - cs.length) ' '

/-- A text flush right in a column of a width, and the border behind it. -/
def alignedRight (width : Nat) (cs : List Char) : List Char := blanks width cs ++ cs ++ ['|']

/-- A line of the table. -/
def line (widths : List Nat) (cells : List (List Char)) : List Char :=
  '|' :: ((cells.zip widths).flatMap fun (c, w) => alignedRight w c)

/-- The border between lines. -/
def border (widths : List Nat) : List Char :=
  '+' :: widths.flatMap fun w => List.replicate w '-' ++ ['+']

/-- The width of a column: that of its longest text, and at least three. -/
def width (texts : List (List Char)) : Nat :=
  texts.foldl (fun w cs => max w cs.length) 3

/-- The widths of the columns, each over its name and its cells. -/
def widths (header : List (List Char)) (rows : List (List (List Char))) : List Nat :=
  header.zipIdx.map fun (name, i) => width (name :: rows.map fun row => row.getD i [])

/-- The lines of the table of the first `limit` rows. -/
def lines (b : Batch) (limit cellLimit : Nat) : List (List Char) :=
  let header := b.schema.names.map String.toList
  let rows := (b.rows.take limit).map fun row => row.map (cell cellLimit)
  let ws := widths header rows
  [border ws, line ws header, border ws] ++ rows.map (line ws) ++ [border ws]

/-- The table of the first `limit` rows. -/
def render (b : Batch) (limit cellLimit : Nat) : String :=
  String.ofList (['\n'].intercalate (lines b limit cellLimit))

/-- One line of a block: the name of a column, flush left, and the cell. -/
def blockLine (nameWidth cellLimit : Nat) (name : List Char) (value : Json) : List Char :=
  ' ' :: (name ++ blanks nameWidth name ++ " | ".toList ++ cell cellLimit value ++ ['\n'])

/-- The block of a row with its number. -/
def block (names : List (List Char)) (cellLimit : Nat) (number : Nat) (row : Row) : List Char :=
  let nameWidth := names.foldl (fun w cs => max w cs.length) 0
  s!"-RECORD {number}-\n".toList ++
    (names.zip row).flatMap fun (name, value) => blockLine nameWidth cellLimit name value

/-- The blocks of the first `limit` rows, numbered from `first` on. -/
def renderVertical (b : Batch) (limit cellLimit first : Nat) : String :=
  let names := b.schema.names.map String.toList
  String.ofList ((b.rows.take limit).zipIdx.flatMap fun (row, i) =>
    block names cellLimit (first + i) row)

end BatchTransfer.Table
