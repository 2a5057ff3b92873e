import BatchTransfer.Connector.Log
import BatchTransfer.Connector.Source

/-!
# Sinks

A sink is opened, written to batch by batch, committed and closed. Its calls may change the sink
itself and its host.
-/

namespace BatchTransfer

/-- A sink. One that is only known by its kind stands for a server that cannot be reached. -/
inductive Sink where
  | memory (sink : MemorySink)
  | log (sink : LogSink)
  | file (sink : FileSink)
  | staging (sink : Staging.StagingSink)
  | mock (sink : Rehearsal.MockSink)
  | scripted
  | remote (kind : String) (mode : SinkMode)
  deriving Inhabited

namespace Sink

/-- The kind of a sink. -/
def kind : Sink → String
  | memory _ => "memory"
  | log _ => "log"
  | file _ => "file"
  | staging s => s.loader.kind
  | mock _ => "mock"
  | scripted => "script"
  | remote kind _ => kind

/-- How the rows written to a sink become visible. -/
def mode : Sink → SinkMode
  | staging _ => .staging
  | mock s => s.mode
  | remote _ mode => mode
  | _ => .direct

/-- A call on the stage of the host. -/
def onStage {α : Type} (s : Sink) (h : Host) (c : Call Rehearsal.Stage α) : Call (Sink × Host) α :=
  c.inside (fun p => p.2.stage) (fun stage p => (p.1, { p.2 with stage })) (s, h)

/-- Opens a sink. -/
def openCall (s : Sink) (time : Nat) (h : Host) : Call (Sink × Host) Unit :=
  match s with
  | memory m =>
      let ((m, tables), answer) := m.openTarget h.tables
      .now (.memory m, { h with tables }) answer
  | log l => .now (.log l, h) (.ok ())
  | file f =>
      let ((f, files), answer) := f.openDirectory h.files
      .now (.file f, h.setFiles files) answer
  | staging g =>
      let ((g, shelves), answer) := g.openStore h.shelves
      .now (.staging g, { h with shelves }) answer
  | mock m =>
      let (board, answer) := Rehearsal.MockSink.openTarget h.mock
      .now (.mock m, { h with mock := board }) answer
  | scripted => scripted.onStage h (h.stage.openSink time)
  | remote kind mode => .now (.remote kind mode, h) (.error (unreachable kind))

/-- Writes a batch to a sink. -/
def writeCall (s : Sink) (time : Nat) (b : Batch) (h : Host) : Call (Sink × Host) Acknowledgement :=
  match s with
  | memory m =>
      let ((m, tables), answer) := m.write h.tables b
      .now (.memory m, { h with tables }) answer
  | log l =>
      let (l, lines, answer) := l.write b
      .now (.log l, { h with log := h.log ++ lines }) answer
  | file f =>
      let ((f, files), answer) := f.write h.files b
      .now (.file f, h.setFiles files) answer
  | staging g =>
      let ((g, shelves), answer) := g.write h.shelves b
      .now (.staging g, { h with shelves }) answer
  | mock m =>
      (m.write h.mock b).inside (fun p => p.2.mock) (fun mock p => (p.1, { p.2 with mock }))
        (.mock m, h)
  | scripted => scripted.onStage h (h.stage.writeSink time b)
  | remote kind mode => .now (.remote kind mode, h) (.error (unreachable kind))

/-- Commits a sink. -/
def commitCall (s : Sink) (time : Nat) (h : Host) : Call (Sink × Host) CommitReceipt :=
  match s with
  | memory m =>
      let ((m, tables), answer) := m.commit h.tables
      .now (.memory m, { h with tables }) answer
  | log l =>
      let (lines, receipt) := l.commit
      .now (.log l, { h with log := h.log ++ lines }) (.ok receipt)
  | file f =>
      let (files, answer) := f.commit h.files
      .now (.file f, h.setFiles files) answer
  | staging g =>
      (g.commit h.shelves h.tables).inside (fun p => p.2.tables)
        (fun tables p => (p.1, { p.2 with tables })) (.staging g, h)
  | mock m =>
      let (board, answer) := Rehearsal.MockSink.commit h.mock
      .now (.mock m, { h with mock := board }) answer
  | scripted => scripted.onStage h (h.stage.commitSink time)
  | remote kind mode => .now (.remote kind mode, h) (.error (unreachable kind))

/-- Closes a sink. -/
def closeCall (s : Sink) (time : Nat) (h : Host) : Call (Sink × Host) Unit :=
  match s with
  | memory m => .now (.memory m, h) (.ok ())
  | log l => .now (.log l, h) (.ok ())
  | file f => .now (.file f.close, h) (.ok ())
  | staging g =>
      let (g, shelves) := g.close h.shelves
      .now (.staging g, { h with shelves }) (.ok ())
  | mock m => .now (.mock m, { h with mock := Rehearsal.MockSink.close h.mock }) (.ok ())
  | scripted => scripted.onStage h (h.stage.closeSink time)
  | remote kind mode => .now (.remote kind mode, h) (.ok ())

end Sink

end BatchTransfer
