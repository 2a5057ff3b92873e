import BatchTransfer.Batch.Schema
import BatchTransfer.Json.Printer

/-!
# Batches of rows

A batch holds rows that share one schema. It is made from JSON records, whose names become columns
in the order in which they first appear, and it can be projected to some of its columns, cut into
chunks, and turned back into records.
-/

namespace BatchTransfer

/-- The values of a row, one a column. -/
abbrev Row := List Json

/-- Rows that share one schema. -/
structure Batch where
  schema : Schema
  rows : List Row
  deriving Inhabited

namespace Batch

/-- The place of the first row whose length is not the width. -/
def misfit? (width : Nat) (rows : List Row) : Option (Nat × Row) :=
  rows.zipIdx.findSome? fun (row, i) => if row.length = width then none else some (i, row)

/-- The batch of given rows, if each has as many values as the schema has columns. -/
def new (schema : Schema) (rows : List Row) : ConnectorResult Batch :=
  match misfit? schema.size rows with
  | none => .ok ⟨schema, rows⟩
  | some (i, row) =>
      .error ⟨.schema, s!"row {i} has {row.length} values, schema has {schema.size} columns"⟩

/-- The batch without rows. -/
def empty (schema : Schema) : Batch := ⟨schema, []⟩

/-- The names in the records, each once, in the order in which they first appear. -/
def columnNames (records : List Record) : List String :=
  (records.flatMap Record.keys).eraseDups

/-- The type that holds all values under a name. -/
def columnType (records : List Record) (name : String) : DataType :=
  (records.filterMap (·.get? name)).foldl (fun type value => type.widen (DataType.of value)) .null

/-- Whether a value is null. -/
def isNull : Json → Bool
  | .null => true
  | _ => false

/-- Whether a record has null or nothing under a name. -/
def lacks (name : String) (record : Record) : Bool :=
  match record.get? name with
  | none => true
  | some value => isNull value

/-- The column that holds the values under a name. -/
def inferField (records : List Record) (name : String) : Field :=
  ⟨name, columnType records name, records.any (lacks name)⟩

/-- The batch of the records. A record without a value under a name has null in its column. -/
def ofRecords (records : List Record) : Batch :=
  let names := columnNames records
  { schema := ⟨names.map (inferField records)⟩
    rows := records.map fun r => names.map fun name => (r.get? name).getD .null }

/-- The number of rows. -/
def size (b : Batch) : Nat := b.rows.length

/-- Whether there is no row. -/
def isEmpty (b : Batch) : Bool := b.rows.isEmpty

/-- The batch with the columns that a projection selects. -/
def project (b : Batch) (p : Projection) : ConnectorResult Batch :=
  match p with
  | .all => .ok b
  | .columns _ =>
      (b.schema.project p).map fun (schema, places) =>
        ⟨schema, b.rows.map fun row => places.map fun i => row.getD i .null⟩

/-- The record of a row. Where columns share a name, the last value counts. -/
def recordOf (schema : Schema) (row : Row) : Record :=
  Record.ofFields (schema.names.zip row)

/-- The rows as records. -/
def toRecords (b : Batch) : List Record := b.rows.map (recordOf b.schema)

/-- A record as a line of JSON. -/
def recordLine (r : Record) : List Char := Json.chars r.toJson ++ ['\n']

/-- The rows as lines of JSON. -/
def toJsonLines (b : Batch) : String := String.ofList (b.toRecords.flatMap recordLine)

/-- Rows in groups of `size + 1`; the last group may be smaller. -/
def groupsOf (size : Nat) (rows : List Row) : List (List Row) :=
  match rows with
  | [] => []
  | row :: rest => (row :: rest.take size) :: groupsOf size (rest.drop size)
termination_by rows.length
decreasing_by
  simp only [List.length_drop, List.length_cons]
  omega

/-- The batch in chunks of `size` rows, of one row where `size` is zero; the last may be smaller. -/
def chunks (b : Batch) (size : Nat) : List Batch :=
  (groupsOf (size - 1) b.rows).map fun rows => ⟨b.schema, rows⟩

end Batch

end BatchTransfer
