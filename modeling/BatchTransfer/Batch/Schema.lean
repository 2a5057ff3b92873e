import BatchTransfer.Batch.DataType
import BatchTransfer.Batch.Projection
import BatchTransfer.Connector.Error

/-!
# Schemas of batches

A schema lists the columns of a batch in order. A projection selects columns by name; a name that
no column has is a schema error.
-/

namespace BatchTransfer

/-- A column: its name, the type of its values, and whether they may be null. -/
structure Field where
  name : String
  dataType : DataType
  nullable : Bool
  deriving DecidableEq, Repr, Inhabited

/-- The columns of a batch in order. -/
structure Schema where
  fields : List Field
  deriving DecidableEq, Repr, Inhabited

namespace Schema

/-- The names of the columns in order. -/
def names (s : Schema) : List String := s.fields.map Field.name

/-- The number of columns. -/
def size (s : Schema) : Nat := s.fields.length

/-- The place of the first column of that name. -/
def indexOf? (s : Schema) (name : String) : Option Nat :=
  s.fields.findIdx? (·.name == name)

/-- The error about a name that no column has. -/
def unknownColumn (s : Schema) (name : String) : ConnectorError :=
  ⟨.schema, s!"unknown column '{name}' (available: " ++ ", ".intercalate s.names ++ ")"⟩

/-- The columns of the given names with their places. -/
def select (s : Schema) : List String → ConnectorResult (List (Field × Nat))
  | [] => .ok []
  | name :: rest =>
      match s.indexOf? name with
      | none => .error (s.unknownColumn name)
      | some i =>
          match s.fields[i]? with
          | none => .error (s.unknownColumn name)
          | some field => (s.select rest).map ((field, i) :: ·)

/-- The schema that a projection leaves, with the places of its columns in this one. -/
def project (s : Schema) (p : Projection) : ConnectorResult (Schema × List Nat) :=
  match p with
  | .all => .ok (s, List.range s.size)
  | .columns names => (s.select names).map fun chosen => (⟨chosen.map (·.1)⟩, chosen.map (·.2))

/-- The schema in JSON. -/
def toJson (s : Schema) : Json :=
  .object [("fields", .array (s.fields.map fun f =>
    .object [("name", .string f.name), ("data_type", .string f.dataType.name),
      ("nullable", .bool f.nullable)]))]

end Schema

end BatchTransfer
