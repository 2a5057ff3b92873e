import BatchTransfer.Batch.Schema
import BatchTransfer.Connector.Lines
import BatchTransfer.Host.Objects

/-!
# Staged parts

A job stages its batches as parts in a folder of its own. The manifest lists the parts in the order
of writing; `Manifest.records` reads them back in that order.
-/

namespace BatchTransfer.Staging

/-- A part: where it is, and how many rows and bytes it holds. -/
structure Part where
  path : ObjectPath
  locator : String
  rows : Nat
  bytes : Nat
  deriving DecidableEq, Repr, Inhabited

/-- The parts of a job in the order of writing, and the schema of the first. -/
structure Manifest where
  folder : String
  parts : List Part
  schema : Option Schema
  deriving Inhabited

namespace Part

/-- The part in JSON. -/
def toJson (p : Part) : Json :=
  .object [("path", .string p.path.text), ("url", .string p.locator), ("rows", .int p.rows),
    ("bytes", .int p.bytes)]

end Part

namespace Manifest

/-- The folder of the job as an object path. -/
def path (m : Manifest) : ObjectPath := .ofText m.folder

/-- The number of rows in all parts. -/
def rows (m : Manifest) : Nat := m.parts.foldr (fun part n => part.rows + n) 0

/-- The list of parts that a cluster loads. -/
def loadList (m : Manifest) : Json :=
  .object [("entries", .array (m.parts.map fun p =>
    .object [("url", .string p.locator), ("mandatory", .bool true)]))]

/-- The manifest in JSON. -/
def toJson (m : Manifest) : Json :=
  .object [("job_prefix", .string m.folder), ("parts", .array (m.parts.map Part.toJson)),
    ("schema", match m.schema with
      | some s => s.toJson
      | none => .null)]

/-- The records of the lines of a part; every line that holds anything must be a record. -/
def recordsOfText? (text : String) : Option (List Record) :=
  (((Text.splitPieces (· == '\n') text.toList).filter (!·.isEmpty)).map String.ofList).mapM
    Json.readRecord?

/-- The records of one part. -/
def recordsOf (store : Store) (shelves : Shelves) (p : Part) : ConnectorResult (List Record) :=
  match store.get? shelves p.path with
  | none => .error ⟨.objectStore, ""⟩
  | some content =>
      match content.text?.bind recordsOfText? with
      | none => .error ⟨.json, ""⟩
      | some records => .ok records

/-- The records of parts, part by part. -/
def recordsOfParts (store : Store) (shelves : Shelves) : List Part → ConnectorResult (List Record)
  | [] => .ok []
  | p :: rest =>
      match recordsOf store shelves p with
      | .error e => .error e
      | .ok records => (recordsOfParts store shelves rest).map (records ++ ·)

/-- The records of all parts in order. -/
def records (m : Manifest) (store : Store) (shelves : Shelves) : ConnectorResult (List Record) :=
  recordsOfParts store shelves m.parts

end Manifest

end BatchTransfer.Staging
