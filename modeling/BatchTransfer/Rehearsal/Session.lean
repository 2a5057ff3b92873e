import BatchTransfer.Job.Run

/-!
# Rehearsals

A rehearsal runs statements on a host one after the other and calls single connectors in between. It
has a clock of its own, which runs on by what each of them takes; calls are timed from the beginning
of the last statement on.
-/

namespace BatchTransfer.Rehearsal

/-- A connector that is called on its own. -/
inductive Handle where
  | source (source : Source)
  | sink (sink : Sink)
  deriving Inhabited

/-- A rehearsal under way. -/
structure Session where
  host : Host
  registry : ConnectorRegistry
  settings : JobSettings
  clock : Nat := 0
  runStart : Nat := 0
  handles : KeyMap Handle := .empty

namespace Session

/-- Changes the tables of the host. -/
def withTables (s : Session) (f : Tables → Tables) : Session :=
  { s with host := { s.host with tables := f s.host.tables } }

/-- Changes the mock board of the host. -/
def withMock (s : Session) (f : Mock → Mock) : Session :=
  { s with host := { s.host with mock := f s.host.mock } }

/-- Changes the stage of the host. -/
def withStage (s : Session) (f : Stage → Stage) : Session :=
  { s with host := { s.host with stage := f s.host.stage } }

/-- Sets a script, which begins anew; what has been recorded stays. -/
def setScript (s : Session) (script : Script) : Session :=
  s.withStage fun stage => { script, notes := stage.notes }

/-- Forgets what has been printed. -/
def clearLog (s : Session) : Session := { s with host := { s.host with log := [] } }

/-- Runs a statement. The mock board may ask for its cancellation after a number of writes. -/
def run (s : Session) (text : String) (cancellation : Cancellation)
    (cancelAfterWrites : Option Nat) : JobOutcome × Session :=
  let s := s.clearLog.withMock fun m => { m with cancelAfterWrites, asksToCancel := false }
  let outcome := s.host.runStatement s.registry s.settings text cancellation
  (outcome,
    { s with host := outcome.host, clock := s.clock + outcome.elapsed, runStart := s.clock })

/-- The time that calls are given. -/
def time (s : Session) : Nat := s.clock - s.runStart

/-- Keeps a connector under a name. -/
def keep (s : Session) (name : String) (handle : Handle) : Session :=
  { s with handles := s.handles.insert name handle }

/-- Goes on to the identifier of the next run. -/
def nextRun (s : Session) : Session :=
  { s with host := { s.host with nextRun := s.host.nextRun.next } }

/-- Makes a source and keeps it under a name. -/
def addSource (s : Session) (name kind : String) (options : OptionMap) : JobResult Session :=
  (s.registry.makeSource s.host.nextRun kind options).map fun x => s.nextRun.keep name (.source x)

/-- Makes a sink and keeps it under a name. -/
def addSink (s : Session) (name kind : String) (options : OptionMap) : JobResult Session :=
  (s.registry.makeSink s.host.nextRun kind options).map fun x => s.nextRun.keep name (.sink x)

/-- Makes a staging sink over a table and keeps it under a name. It stages among the shared objects
or in a store of its own. -/
def addStaging (s : Session) (name target : String) (saveMode : SaveMode)
    (location : Staging.Location) (projection : Projection) (keeps shared : Bool) : Session :=
  let sink := Staging.StagingSink.new (.table target saveMode) location projection keeps
    s.host.nextRun
  s.nextRun.keep name (.sink (.staging (if shared then { sink with store := some .shared } else sink)))

/-- Waits for the end of a call and keeps the connector as the call has left it. -/
def complete {α β : Type} (s : Session) (name : String) (wrap : α → Handle)
    (c : Call (α × Host) β) : ConnectorResult β × Session :=
  let ((connector, host), answer) := c.complete
  (answer, { s with host, clock := s.clock + c.delay }.keep name (wrap connector))

/-- Calls the source of a name. -/
def callSource {β : Type} (s : Session) (name : String) (x : Source)
    (call : Source → Nat → Host → Call (Source × Host) β) : ConnectorResult β × Session :=
  s.complete name .source (call x s.time s.host)

/-- Calls the sink of a name. -/
def callSink {β : Type} (s : Session) (name : String) (x : Sink)
    (call : Sink → Nat → Host → Call (Sink × Host) β) : ConnectorResult β × Session :=
  s.complete name .sink (call x s.time s.host)

end Session

end BatchTransfer.Rehearsal
