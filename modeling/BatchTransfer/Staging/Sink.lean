import BatchTransfer.Batch.Basic
import BatchTransfer.Connector.Call
import BatchTransfer.Connector.Settings
import BatchTransfer.Connector.Memory
import BatchTransfer.Staging.Manifest

/-!
# Sinks that stage

A staging sink keeps every batch as a part in a folder of its job and shows nothing before commit,
when a loader publishes all parts at once. A commit that fails leaves the target as it was. The parts
are removed when the sink is closed, unless they are to be kept.
-/

namespace BatchTransfer.Staging

open BatchTransfer.Decimal

/-- What publishes the parts of a job. A rehearsed load waits before it publishes, and may fail. -/
inductive Loader where
  | table (target : String) (saveMode : SaveMode)
  | rehearsed (target : String) (fails : Bool) (delay : Nat)
  deriving Inhabited

namespace Loader

/-- The connector kind of a loader. -/
def kind : Loader → String
  | table .. => "warehouse"
  | rehearsed .. => "flaky"

/-- Where a loader says that it puts data. -/
def location? : Loader → Option String
  | table target _ => some (tableLocation target)
  | rehearsed .. => none

/-- How long a load takes. -/
def delay : Loader → Nat
  | table .. => 0
  | rehearsed _ _ delay => delay

/-- Publishes records in a table: all of them or, where the load fails, none. -/
def publish (l : Loader) (t : Tables) (records : List Record) : Tables × ConnectorResult Nat :=
  match l with
  | table target .overwrite => (t.replace target records, .ok records.length)
  | table target _ => (t.append target records, .ok records.length)
  | rehearsed _ true _ => (t, .error ⟨.transient, "load rejected by target"⟩)
  | rehearsed target false _ => (t.append target records, .ok records.length)

end Loader

/-- A sink that stages its batches and publishes them on commit. -/
structure StagingSink where
  loader : Loader
  location : Location
  store : Option Store
  projection : Projection
  keeps : Bool
  folder : String
  parts : List Part
  schema : Option Schema
  deriving Inhabited

namespace StagingSink

/-- The folder of a run below the folder of its staging area. -/
def jobFolder (location : Location) (run : RunId) : String :=
  joinNonEmpty [location.folder, "datatunnel-" ++ run.full]

/-- The sink of a run. -/
def new (loader : Loader) (location : Location) (projection : Projection) (keeps : Bool)
    (run : RunId) : StagingSink :=
  ⟨loader, location, none, projection, keeps, jobFolder location run, [], none⟩

/-- The error about a sink that is not open. -/
def notOpen : ConnectorError := ⟨.internal, "staging sink used before open"⟩

/-- The store of a location that needs no credentials. -/
def storeOf (location : Location) (shelves : Shelves) :
    Shelves × ConnectorResult Store :=
  match location with
  | .memory _ => (shelves, .ok (.own .empty))
  | .directory root =>
      match shelves.files.createDirectories root with
      | none => (shelves, .error ⟨.config, "failed to create staging directory"⟩)
      | some (files, path) => ({ shelves with files }, .ok (.directory path))
  | .bucket .. =>
      (shelves,
        .error ⟨.config, "s3 staging is only available to connectors that carry AWS credentials"⟩)

/-- Opens the sink, which takes the store of its location where it has none yet. -/
def openStore (s : StagingSink) (shelves : Shelves) :
    (StagingSink × Shelves) × ConnectorResult Unit :=
  match s.store with
  | some _ => ((s, shelves), .ok ())
  | none =>
      match storeOf s.location shelves with
      | (shelves, .ok store) => (({ s with store := some store }, shelves), .ok ())
      | (shelves, .error e) => ((s, shelves), .error e)

/-- The manifest of the parts staged so far. -/
def manifest (s : StagingSink) : Manifest := ⟨s.folder, s.parts, s.schema⟩

/-- The path of the next part. -/
def nextPart (s : StagingSink) : ObjectPath :=
  (ObjectPath.ofText s.folder).append
    ⟨[String.ofList ("part-".toList ++ padded 5 s.parts.length ++ ".jsonl".toList)]⟩

/-- Stages a batch as one part. -/
def write (s : StagingSink) (shelves : Shelves) (b : Batch) :
    (StagingSink × Shelves) × ConnectorResult Acknowledgement :=
  if b.isEmpty then ((s, shelves), .ok .none)
  else
    match b.project s.projection with
    | .error e => ((s, shelves), .error e)
    | .ok b =>
        match s.store with
        | none => ((s, shelves), .error notOpen)
        | some store =>
            let text := b.toJsonLines
            match store.put? shelves s.nextPart (.text text) with
            | none => ((s, shelves), .error ⟨.connection, "staging upload failed"⟩)
            | some (store, shelves) =>
                let part : Part :=
                  ⟨s.nextPart, s.location.locatorOf s.nextPart, b.size, text.utf8ByteSize⟩
                (({ s with
                    store := some store
                    parts := s.parts ++ [part]
                    schema := s.schema.or (some b.schema) }, shelves),
                  .ok ⟨b.size, text.utf8ByteSize⟩)

/-- The records that a commit would publish now. -/
def stagedRecords (s : StagingSink) (shelves : Shelves) : ConnectorResult (List Record) :=
  match s.store with
  | none => .error notOpen
  | some store => s.manifest.records store shelves

/-- Commits the sink: the staged records, read now, are published when the load ends. -/
def commit (s : StagingSink) (shelves : Shelves) (t : Tables) : Call Tables CommitReceipt :=
  match s.stagedRecords shelves with
  | .error e => .now t (.error e)
  | .ok records =>
      { state := t
        delay := s.loader.delay
        finish := fun t =>
          let (t, answer) := s.loader.publish t records
          (t, answer.map fun rows => ⟨rows, s.loader.location?⟩) }

/-- Closes the sink, which removes the parts of its job unless they are to be kept. -/
def close (s : StagingSink) (shelves : Shelves) : StagingSink × Shelves :=
  match s.store with
  | none => (s, shelves)
  | some store =>
      if s.keeps then (s, shelves)
      else
        let (store, shelves) := store.removeBelow shelves (.ofText s.folder)
        ({ s with store := some store }, shelves)

end StagingSink

/-- The options of the sink that publishes in a table. -/
def warehouseSchema : OptionSchema :=
  (((((OptionSchema.new "warehouse").required "target" .string
    "Memory table published on commit").withDefault
    "tempdir" .string (.string "memory://") "Staging area URL (memory:// or file://)").withDefault
    "saveMode" (.oneOf [SaveMode.append.name, SaveMode.overwrite.name])
    (.string SaveMode.append.name) "Append to or replace the target on commit").withDefault
    "keepStaging" .boolean (.boolean false) "Keep staged parts after the job").withColumns

/-- The staging area that an option names. -/
def locationOption (o : ValidOptions) : Except OptionsError Location :=
  match Location.read (o.text "tempdir") with
  | .ok location => .ok location
  | .error e => .error (o.invalid "tempdir" (.location e))

/-- The sink that publishes in a table, as options ask for it. -/
def createWarehouse (run : RunId) (o : ValidOptions) : Except OptionsError StagingSink := do
  Settings.check ⟨[], [nonEmptySetting "target"]⟩ o
  let location ← locationOption o
  match location with
  | .bucket .. => throw (o.invalid "tempdir" .warehouseNeedsLocalStaging)
  | location =>
      return .new (.table (o.text "target") o.saveMode) location (← o.projection)
        (o.flag "keepStaging") run

end BatchTransfer.Staging
