import BatchTransfer.Batch.Projection
import BatchTransfer.Sql.Quoted
import BatchTransfer.Text.Blank
import BatchTransfer.Text.Caseless
import BatchTransfer.Text.Pieces

/-!
# Queries over a table

The query that reads a table: its columns, the table, and a condition. Names stand between
backticks, and the parts of a table's name that dots separate are quoted one by one. The condition
is taken as it is, except for blanks around it and for the keyword that may begin it.
-/

namespace BatchTransfer.Sql

open BatchTransfer.Text

/-- A name between backticks. -/
def backticked (name : List Char) : List Char := quoted '`' name

/-- The name of a table: its parts between dots, each between backticks. -/
def tableName (name : String) : List Char :=
  ['.'].intercalate ((splitPieces (· == '.') name.toList).map backticked)

/-- The columns of a query. -/
def selectList : Projection → List Char
  | .all => ['*']
  | .columns names => commaSeparated (names.map fun name => backticked name.toList)

/-- The keyword that begins a condition. -/
def whereKeyword : String := "where"

/-- Whether a keyword may end before these characters. -/
def endsKeyword : List Char → Bool
  | [] => true
  | c :: _ => isBlank c || c == '('

/-- A condition without the blanks around it and without the keyword that begins it. -/
def bareCondition (condition : List Char) : List Char :=
  let cs := trimChars condition
  let head := cs.take whereKeyword.length
  let rest := cs.drop whereKeyword.length
  if equalFold (String.ofList head) whereKeyword && endsKeyword rest then
    rest.dropWhile isBlank
  else cs

/-- The query that reads a table. -/
def selectChars (table : String) (projection : Projection) (condition : Option String) :
    List Char :=
  "SELECT ".toList ++ selectList projection ++ " FROM ".toList ++ tableName table ++
    match condition.map fun c => bareCondition c.toList with
    | none => []
    | some [] => []
    | some cs => " WHERE (".toList ++ cs ++ [')']

/-- The query that reads a table. -/
def select (table : String) (projection : Projection) (condition : Option String) : String :=
  String.ofList (selectChars table projection condition)

end BatchTransfer.Sql
