import BatchTransfer.Connector.Settings
import BatchTransfer.Host.Basic
import BatchTransfer.Staging.Sink

/-!
# Connectors for rehearsals

The mock connectors count and keep what they are given and fail on demand; the scripted ones do as
the script of the host says; and a staging sink loads its parts late, or not at all.
-/

namespace BatchTransfer.Rehearsal

open BatchTransfer.Decimal

/-- A mock source of numbered rows. -/
structure MockSource where
  rows : Nat
  batchSize : Nat
  projection : Projection
  isOpen : Bool
  deriving Inhabited

namespace MockSource

/-- The options of the source. -/
def schema : OptionSchema :=
  ((OptionSchema.new "mock").withDefault "rows" .integer (.integer 0)
    "Number of rows to produce").withDefault "batchSize" .integer (.integer 100) "Rows per batch"
  |>.withColumns

/-- The source that options ask for. -/
def create (o : ValidOptions) : Except OptionsError MockSource := do
  return ⟨o.natural "rows", max (o.natural "batchSize") 1, ← o.projection, false⟩

/-- Opens the source, or fails with the next fault. -/
def openRows (s : MockSource) (m : Mock) : (MockSource × Mock) × ConnectorResult Unit :=
  let m := { m with sourceOpens := m.sourceOpens + 1 }
  match m.sourceOpenFaults with
  | fault :: rest => ((s, { m with sourceOpenFaults := rest }), .error (fault.error "source open"))
  | [] => (({ s with isOpen := true }, m), .ok ())

/-- A numbered row. -/
def row (number : Nat) : Record :=
  Record.ofFields [("id", .int number), ("label", .string s!"row-{number}")]

/-- The batches of the source, as far as they can be projected. -/
def items (s : MockSource) : List StreamItem :=
  ((Batch.ofRecords ((List.range s.rows).map row)).chunks s.batchSize).map fun b =>
    .ofResult (b.project s.projection)

/-- Reads the source; after a number of batches the stream may fail. -/
def read (s : MockSource) (m : Mock) : ConnectorResult Stream :=
  if !s.isOpen then .error ⟨.internal, "source not opened"⟩
  else
    match m.readFailsAfter with
    | none => .ok (.ofItems s.items)
    | some n =>
        .ok (.ofItems (s.items.take n ++ [.failure ⟨.transient, "injected read failure"⟩]))

/-- Closes the source. -/
def close (s : MockSource) (m : Mock) : MockSource × Mock :=
  ({ s with isOpen := false }, { m with sourceCloses := m.sourceCloses + 1 })

end MockSource

/-- A mock sink. -/
structure MockSink where
  mode : SinkMode
  deriving Inhabited

namespace MockSink

/-- The options of the sink. -/
def schema : OptionSchema :=
  (OptionSchema.new "mock").withDefault "mode"
    (.oneOf [SinkMode.direct.name, SinkMode.staging.name]) (.string SinkMode.direct.name)
    "Whether writes are visible before commit"

/-- The sink that options ask for. -/
def create (o : ValidOptions) : MockSink :=
  ⟨if o.string? "mode" == some SinkMode.staging.name then .staging else .direct⟩

/-- Opens the sink, or fails with the next fault. -/
def openTarget (m : Mock) : Mock × ConnectorResult Unit :=
  let m := { m with sinkOpens := m.sinkOpens + 1 }
  match m.sinkOpenFaults with
  | fault :: rest => ({ m with sinkOpenFaults := rest }, .error (fault.error "sink open"))
  | [] => (m, .ok ())

/-- The end of a write: the fault of this write, which occurs once, or the batch is kept. -/
def endWrite (s : MockSink) (b : Batch) (m : Mock) : Mock × ConnectorResult Acknowledgement :=
  match m.writeFault? m.writeCalls with
  | some fault =>
      ({ m with writeFaults := m.writeFaults.filter (·.1 != m.writeCalls) },
        .error (fault.error "write"))
  | none => (m.keep (s.mode == .direct) b, .ok ⟨b.size, 0⟩)

/-- Writes a batch. -/
def write (s : MockSink) (m : Mock) (b : Batch) : Call Mock Acknowledgement :=
  ⟨{ m with writeCalls := m.writeCalls + 1 }, m.writeDelay, s.endWrite b⟩

/-- Commits the sink. -/
def commit (m : Mock) : Mock × ConnectorResult CommitReceipt :=
  let m := { m with commitCalls := m.commitCalls + 1 }
  match m.commitFault with
  | some fault => (m, .error (fault.error "commit"))
  | none => (m.publish, .ok ⟨m.publish.visibleRows, some "mock://target"⟩)

/-- Closes the sink, which drops what is staged. -/
def close (m : Mock) : Mock := { m with sinkCloses := m.sinkCloses + 1, staged := [] }

end MockSink

/-- The options of the scripted source. -/
def scriptedSourceSchema : OptionSchema :=
  (OptionSchema.new "script").optional "secret" .string "" |>.sensitive |>.withColumns

/-- The options of the scripted sink. -/
def scriptedSinkSchema : OptionSchema := OptionSchema.new "script"

/-- The options of the staging sink that loads late or not at all. -/
def lateLoadSchema : OptionSchema :=
  (OptionSchema.new "flaky").required "target" .string ""
  |>.withDefault "fail" .boolean (.boolean false) ""
  |>.withDefault "loadDelayMs" .integer (.integer 0) ""
  |>.withDefault "keepStaging" .boolean (.boolean false) ""
  |>.withColumns

/-- The staging sink that loads late or not at all. Its parts are among the shared objects. -/
def createLateLoad (run : RunId) (o : ValidOptions) :
    Except OptionsError Staging.StagingSink := do
  let loader := Staging.Loader.rehearsed (o.text "target") (o.flag "fail") (o.natural "loadDelayMs")
  let sink := Staging.StagingSink.new loader (.memory "stage") (← o.projection)
    (o.flag "keepStaging") run
  return { sink with store := some .shared }

end BatchTransfer.Rehearsal
