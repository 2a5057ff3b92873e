import BatchTransfer.Connector.Call
import BatchTransfer.Connector.Settings
import BatchTransfer.Host.Basic

/-!
# Tables in memory as source and sink

The source yields rows that the statement holds, or the rows that a table of the host holds when the
source is opened. A name that no table has may be that of a published result whose data landed in a
table. The sink appends every batch to its target at once.
-/

namespace BatchTransfer

/-- What begins the location of data in a table. -/
def tableScheme : String := "memory://"

/-- The location of data in a table. -/
def tableLocation (name : String) : String := tableScheme ++ name

/-- The table that a location names. -/
def tableOfLocation? (location : String) : Option String :=
  let cs := location.toList
  if tableScheme.toList.isPrefixOf cs then
    some (String.ofList (cs.drop tableScheme.toList.length))
  else none

@[simp]
theorem tableOfLocation?_tableLocation (name : String) :
    tableOfLocation? (tableLocation name) = some name := by
  simp [tableOfLocation?, tableLocation]

/-- Where the rows of the source come from. -/
inductive MemoryOrigin where
  | rows (records : List Record)
  | table (name : String)
  deriving Inhabited

/-- A source of rows in memory. `seesResults` says whether it looks names up among the published
results as well. -/
structure MemorySource where
  origin : MemoryOrigin
  batchSize : Nat
  projection : Projection
  seesResults : Bool
  snapshot : Option (List Record)
  deriving Inhabited

namespace MemorySource

/-- The options of the source. -/
def schema : OptionSchema :=
  (((OptionSchema.new "memory").optional "rows" .records "Inline rows as JSON objects").optional
    "table" .string "Memory table to read instead of inline rows").withDefault
    "batchSize" .integer (.integer 100) "Rows per batch"
  |>.withColumns

/-- The records in a list of objects. -/
def recordsOf (items : List OptionValue) : List Record :=
  items.filterMap fun
    | .object r => some r
    | _ => none

/-- The origin that options name, if it is exactly one. -/
def originOf? (o : ValidOptions) : Option MemoryOrigin :=
  match o.get? "rows", o.get? "table" with
  | some rows, none => some (.rows (recordsOf ((rows.list?).getD [])))
  | none, some _ => some (.table (o.text "table"))
  | _, _ => none

/-- The source that options ask for. -/
def create (seesResults : Bool) (o : ValidOptions) : Except OptionsError MemorySource := do
  Settings.check ⟨[batchSizeSetting], []⟩ o
  match originOf? o with
  | none => throw (o.invalid "rows" .rowsOrTable)
  | some origin =>
      return ⟨origin, o.natural "batchSize", ← o.projection, seesResults, none⟩

/-- The rows of a table, or of the table in which the data of a published result landed. -/
def tableRows (s : MemorySource) (h : Host) (name : String) : ConnectorResult (List Record) :=
  match h.tables.get? name with
  | some rows => .ok rows
  | none =>
      match if s.seesResults then h.results.get? name else none with
      | none => .error ⟨.notFound, s!"memory table '{name}'"⟩
      | some result =>
          let location := result.location.getD ""
          match tableOfLocation? location with
          | none =>
              .error ⟨.notFound, s!"result table '{name}' is stored at '{location}', not in memory"⟩
          | some target =>
              match h.tables.get? target with
              | some rows => .ok rows
              | none =>
                  .error ⟨.notFound, s!"memory table '{target}' behind result table '{name}'"⟩

/-- The rows that the source would yield now. -/
def rows (s : MemorySource) (h : Host) : ConnectorResult (List Record) :=
  match s.origin with
  | .rows records => .ok records
  | .table name => s.tableRows h name

/-- Opens the source, which takes its rows as they are now. -/
def openRows (s : MemorySource) (h : Host) : MemorySource × ConnectorResult Unit :=
  match s.rows h with
  | .ok records => ({ s with snapshot := some records }, .ok ())
  | .error e => (s, .error e)

/-- The batches of records. -/
def batches (s : MemorySource) (records : List Record) : ConnectorResult (List Batch) :=
  ((Batch.ofRecords records).project s.projection).map (·.chunks s.batchSize)

/-- Reads the rows taken on opening; they can be read once. -/
def read (s : MemorySource) : MemorySource × ConnectorResult Stream :=
  match s.snapshot with
  | none => (s, .error ⟨.internal, "memory source read before open"⟩)
  | some records => ({ s with snapshot := none }, (s.batches records).map .ofBatches)

/-- Closes the source. -/
def close (s : MemorySource) : MemorySource := { s with snapshot := none }

end MemorySource

/-- A sink that appends to a table. -/
structure MemorySink where
  target : String
  saveMode : SaveMode
  projection : Projection
  discards : Bool
  rows : Nat
  deriving Inhabited

namespace MemorySink

/-- The options of the sink. -/
def schema : OptionSchema :=
  ((OptionSchema.new "memory").required "target" .string "Memory table to write").withDefault
    "saveMode" (.oneOf SaveMode.choices) (.string SaveMode.append.name)
    "What to do when the target already exists"
  |>.withColumns

/-- The sink that options ask for. -/
def create (o : ValidOptions) : Except OptionsError MemorySink := do
  Settings.check ⟨[], [nonEmptySetting "target"]⟩ o
  return ⟨o.text "target", o.saveMode, ← o.projection, false, 0⟩

/-- Opens the sink: what becomes of a target that is there already depends on the save mode. -/
def openTarget (s : MemorySink) (t : Tables) : (MemorySink × Tables) × ConnectorResult Unit :=
  match s.saveMode with
  | .append => ((s, t), .ok ())
  | .overwrite => ((s, t.replace s.target []), .ok ())
  | .errorIfExists =>
      if t.contains s.target then
        ((s, t), .error ⟨.fatal, s!"memory table '{s.target}' already exists"⟩)
      else ((s, t), .ok ())
  | .ignore => (({ s with discards := s.discards || t.contains s.target }, t), .ok ())

/-- Appends a batch to the target. -/
def write (s : MemorySink) (t : Tables) (b : Batch) :
    (MemorySink × Tables) × ConnectorResult Acknowledgement :=
  if s.discards then ((s, t), .ok .none)
  else
    match b.project s.projection with
    | .error e => ((s, t), .error e)
    | .ok b =>
        (({ s with rows := s.rows + b.size }, t.append s.target b.toRecords), .ok ⟨b.size, 0⟩)

/-- Commits the sink, which leaves a target even where no row was written. -/
def commit (s : MemorySink) (t : Tables) : (MemorySink × Tables) × ConnectorResult CommitReceipt :=
  ((s, if s.discards then t else t.ensure s.target),
    .ok ⟨s.rows, some (tableLocation s.target)⟩)

end MemorySink

end BatchTransfer
