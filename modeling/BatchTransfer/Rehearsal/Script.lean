import BatchTransfer.Connector.Call
import BatchTransfer.Stream

/-!
# Scripted connectors

For rehearsals, a script says how long every call of a source and a sink takes and how it ends. The
script keeps a record of the calls, each made when the call is entered.
-/

namespace BatchTransfer.Rehearsal

/-- What a scripted stream yields; rows become a batch when the stream is read. -/
inductive ScriptedItem where
  | rows (records : List Record)
  | failure (error : ConnectorError)
  | breakdown
  deriving Inhabited

/-- How scripted calls go. Lists are by the number of the call; where one is too short, the call
takes no time and succeeds. -/
structure Script where
  sourceOpenDelays : List Nat := []
  sourceOpens : List (Option ConnectorError) := []
  read : Option ConnectorError := none
  items : List (Nat × ScriptedItem) := []
  sourceCloseDelay : Nat := 0
  sourceClose : Option ConnectorError := none
  sinkOpenDelays : List Nat := []
  sinkOpens : List (Option ConnectorError) := []
  writeDelays : List Nat := []
  writes : List (Option ConnectorError) := []
  commitDelay : Nat := 0
  commit : Option ConnectorError := none
  rowsCommitted : Nat := 0
  location : Option String := none
  sinkCloseDelay : Nat := 0
  sinkClose : Option ConnectorError := none
  deriving Inhabited

/-- A recorded call: its name, the time at which it was entered, and the rows it was given. -/
structure CallNote where
  name : String
  time : Nat
  rows : Option Nat
  deriving Inhabited

/-- A script under way: how many calls of each numbered kind there were, and the record of all. -/
structure Stage where
  script : Script := {}
  sourceOpens : Nat := 0
  sinkOpens : Nat := 0
  writes : Nat := 0
  notes : List CallNote := []
  deriving Inhabited

namespace Stage

/-- Records a call. -/
def note (s : Stage) (name : String) (time : Nat) (rows : Option Nat) : Stage :=
  { s with notes := s.notes ++ [⟨name, time, rows⟩] }

/-- The answer that a script gives: an error where it has one. -/
def answer {α : Type} (error : Option ConnectorError) (value : α) : ConnectorResult α :=
  match error with
  | some e => .error e
  | none => .ok value

/-- Opens the source. -/
def openSource (s : Stage) (time : Nat) : Call Stage Unit :=
  let s' := { s.note "source.open" time none with sourceOpens := s.sourceOpens + 1 }
  .after (s.script.sourceOpenDelays.getD s.sourceOpens 0) s'
    (answer (s.script.sourceOpens.getD s.sourceOpens none) ())

/-- The item that a scripted item becomes under a projection. -/
def item (projection : Projection) : ScriptedItem → StreamItem
  | .rows records => .ofResult ((Batch.ofRecords records).project projection)
  | .failure e => .failure e
  | .breakdown => .breakdown

/-- Reads the source. -/
def readSource (s : Stage) (time : Nat) (projection : Projection) : Call Stage Stream :=
  let arrivals := s.script.items.map fun (delay, i) => (⟨delay, item projection i⟩ : Arrival)
  .now (s.note "source.read" time none) (answer s.script.read (.listed arrivals))

/-- Closes the source. -/
def closeSource (s : Stage) (time : Nat) : Call Stage Unit :=
  .after s.script.sourceCloseDelay (s.note "source.close" time none)
    (answer s.script.sourceClose ())

/-- Opens the sink. -/
def openSink (s : Stage) (time : Nat) : Call Stage Unit :=
  let s' := { s.note "sink.open" time none with sinkOpens := s.sinkOpens + 1 }
  .after (s.script.sinkOpenDelays.getD s.sinkOpens 0) s'
    (answer (s.script.sinkOpens.getD s.sinkOpens none) ())

/-- The bytes that the sink acknowledges for a batch of any size. -/
def bytesPerWrite : Nat := 7

/-- Writes a batch to the sink. -/
def writeSink (s : Stage) (time : Nat) (b : Batch) : Call Stage Acknowledgement :=
  let s' := { s.note "sink.write" time (some b.size) with writes := s.writes + 1 }
  .after (s.script.writeDelays.getD s.writes 0) s'
    (answer (s.script.writes.getD s.writes none) ⟨b.size, bytesPerWrite⟩)

/-- Commits the sink. -/
def commitSink (s : Stage) (time : Nat) : Call Stage CommitReceipt :=
  .after s.script.commitDelay (s.note "sink.commit" time none)
    (answer s.script.commit ⟨s.script.rowsCommitted, s.script.location⟩)

/-- Closes the sink. -/
def closeSink (s : Stage) (time : Nat) : Call Stage Unit :=
  .after s.script.sinkCloseDelay (s.note "sink.close" time none) (answer s.script.sinkClose ())

end Stage

end BatchTransfer.Rehearsal
