import BatchTransfer.Connector.Files
import BatchTransfer.Connector.Generated
import BatchTransfer.Connector.Server
import BatchTransfer.Rehearsal.Connectors

/-!
# Sources

A source is opened, read and closed. Its calls may change the source itself and its host.
-/

namespace BatchTransfer

/-- A source. One that is only known by its kind stands for a server that cannot be reached. -/
inductive Source where
  | memory (source : MemorySource)
  | generated (source : GeneratedSource)
  | file (source : FileSource)
  | mock (source : Rehearsal.MockSource)
  | scripted (projection : Projection)
  | remote (kind : String)
  deriving Inhabited

/-- The error about a server that cannot be reached. -/
def unreachable (kind : String) : ConnectorError := ⟨.connection, s!"no server for '{kind}'"⟩

namespace Source

/-- The kind of a source. -/
def kind : Source → String
  | memory _ => "memory"
  | generated _ => "datagen"
  | file _ => "file"
  | mock _ => "mock"
  | scripted _ => "script"
  | remote kind => kind

/-- A call on the stage of the host. -/
def onStage {α : Type} (s : Source) (h : Host) (c : Call Rehearsal.Stage α) :
    Call (Source × Host) α :=
  c.inside (fun p => p.2.stage) (fun stage p => (p.1, { p.2 with stage })) (s, h)

/-- Opens a source. -/
def openCall (s : Source) (time : Nat) (h : Host) : Call (Source × Host) Unit :=
  match s with
  | memory m =>
      let (m, answer) := m.openRows h
      .now (.memory m, h) answer
  | generated g => .now (.generated g, h) (.ok ())
  | file f =>
      let (f, answer) := f.openFiles h.files
      .now (.file f, h) answer
  | mock m =>
      let ((m, board), answer) := m.openRows h.mock
      .now (.mock m, { h with mock := board }) answer
  | scripted p => (Source.scripted p).onStage h (h.stage.openSource time)
  | remote kind => .now (.remote kind, h) (.error (unreachable kind))

/-- Reads a source. -/
def readCall (s : Source) (time : Nat) (h : Host) : Call (Source × Host) Stream :=
  match s with
  | memory m =>
      let (m, answer) := m.read
      .now (.memory m, h) answer
  | generated g => .now (.generated g, h) (.ok g.read)
  | file f =>
      let (f, stream) := f.read h.files
      .now (.file f, h) (.ok stream)
  | mock m => .now (.mock m, h) (m.read h.mock)
  | scripted p => (Source.scripted p).onStage h (h.stage.readSource time p)
  | remote kind => .now (.remote kind, h) (.error (unreachable kind))

/-- Closes a source. -/
def closeCall (s : Source) (time : Nat) (h : Host) : Call (Source × Host) Unit :=
  match s with
  | memory m => .now (.memory m.close, h) (.ok ())
  | generated g => .now (.generated g, h) (.ok ())
  | file f => .now (.file f.close, h) (.ok ())
  | mock m =>
      let (m, board) := m.close h.mock
      .now (.mock m, { h with mock := board }) (.ok ())
  | scripted p => (Source.scripted p).onStage h (h.stage.closeSource time)
  | remote kind => .now (.remote kind, h) (.ok ())

end Source

end BatchTransfer
