import BatchTransfer.Connector.Sink
import BatchTransfer.Registry.Basic

/-!
# The connectors that are there from the start

Tables in memory, files, synthetic rows, printing, staged loads into a table, a database server and
a cluster.
-/

namespace BatchTransfer

/-- A registry of sources and sinks. -/
abbrev ConnectorRegistry := Registry Source Sink

namespace ConnectorRegistry

/-- The maker of sources of tables in memory. -/
def memorySource (seesResults : Bool) : Maker Source :=
  ⟨MemorySource.schema, fun _ o => (MemorySource.create seesResults o).map .memory⟩

/-- The maker of sources of synthetic rows. -/
def generatedSource : Maker Source :=
  ⟨GeneratedSource.schema, fun _ o => (GeneratedSource.create o).map .generated⟩

/-- The maker of sources of files. -/
def fileSource : Maker Source := ⟨FileSource.schema, fun _ o => (FileSource.create o).map .file⟩

/-- The maker of sources of database tables. -/
def databaseSource : Maker Source :=
  ⟨DatabaseSource.schema, fun _ o => (DatabaseSource.create o).map fun _ => .remote "mysql"⟩

/-- The maker of sinks of tables in memory. -/
def memorySink : Maker Sink := ⟨MemorySink.schema, fun _ o => (MemorySink.create o).map .memory⟩

/-- The maker of sinks that print. -/
def logSink : Maker Sink := ⟨LogSink.schema, fun _ o => (LogSink.create o).map .log⟩

/-- The maker of sinks of files. -/
def fileSink : Maker Sink := ⟨FileSink.schema, fun run o => (FileSink.create run o).map .file⟩

/-- The maker of sinks that stage and publish in a table. -/
def warehouseSink : Maker Sink :=
  ⟨Staging.warehouseSchema, fun run o => (Staging.createWarehouse run o).map .staging⟩

/-- The maker of sinks that stage and load into a cluster. -/
def clusterSink : Maker Sink :=
  ⟨ClusterSink.schema, fun _ o =>
    (ClusterSink.create o).map fun _ => .remote "redshift" .staging⟩

/-- A maker of connectors that are only known by their kind; `make` is given nothing but the kind. -/
def named {α : Type} (schema : OptionSchema) (make : String → α) : Maker α :=
  ⟨schema, fun _ o => o.projection.map fun _ => make o.kind⟩

/-- The connectors that are there from the start. -/
def builtIn : ConnectorRegistry :=
  Registry.empty
  |>.addSource "memory" (memorySource false)
  |>.addSource "datagen" generatedSource
  |>.addSource "file" fileSource
  |>.addSource "mysql" databaseSource
  |>.addSink "memory" memorySink
  |>.addSink "log" logSink
  |>.addSink "file" fileSink
  |>.addSink "warehouse" warehouseSink
  |>.addSink "redshift" clusterSink

/-- Installs a registry for a whole process, which can be done once and only before one is used. -/
def install (installed : Option ConnectorRegistry) (r : ConnectorRegistry) :
    JobResult ConnectorRegistry :=
  match installed with
  | none => .ok r
  | some _ => .error (.config .registryInstalled)

/-- The connectors for rehearsals: the mock and scripted ones among some of those above. -/
def rehearsal (seesResults : Bool) : ConnectorRegistry :=
  Registry.empty
  |>.addSource "memory" (memorySource seesResults)
  |>.addSource "datagen" generatedSource
  |>.addSource "file" fileSource
  |>.addSource "mock"
    ⟨Rehearsal.MockSource.schema, fun _ o => (Rehearsal.MockSource.create o).map .mock⟩
  |>.addSource "script"
    ⟨Rehearsal.scriptedSourceSchema, fun _ o => o.projection.map .scripted⟩
  |>.addSink "memory" memorySink
  |>.addSink "log" logSink
  |>.addSink "file" fileSink
  |>.addSink "warehouse" warehouseSink
  |>.addSink "mock"
    ⟨Rehearsal.MockSink.schema, fun _ o => .ok (.mock (Rehearsal.MockSink.create o))⟩
  |>.addSink "script" ⟨Rehearsal.scriptedSinkSchema, fun _ _ => .ok .scripted⟩
  |>.addSink "flaky"
    ⟨Rehearsal.lateLoadSchema, fun run o => (Rehearsal.createLateLoad run o).map .staging⟩

end ConnectorRegistry

end BatchTransfer
