import BatchTransfer.Connector.Sink
import BatchTransfer.Job.Machine
import BatchTransfer.Job.Report
import BatchTransfer.Registry.BuiltIn
import BatchTransfer.Statement.Parser

/-!
# Running jobs

A job is run on a host: its connectors are made from a registry, the machine is run to its end, and
a completed job publishes its result table. A job that fails publishes nothing.
-/

namespace BatchTransfer

/-- The connectors of a job and its host. -/
structure JobSite where
  source : Source
  sink : Sink
  host : Host
  deriving Inhabited

namespace JobSite

/-- Replaces the source and the host. -/
def setSource (p : Source × Host) (s : JobSite) : JobSite := { s with source := p.1, host := p.2 }

/-- Replaces the sink and the host. -/
def setSink (p : Sink × Host) (s : JobSite) : JobSite := { s with sink := p.1, host := p.2 }

/-- A call of the source. -/
def onSource {α : Type} (s : JobSite) (c : Call (Source × Host) α) : Call JobSite α :=
  c.inside (fun s => (s.source, s.host)) setSource s

/-- A call of the sink. -/
def onSink {α : Type} (s : JobSite) (c : Call (Sink × Host) α) : Call JobSite α :=
  c.inside (fun s => (s.sink, s.host)) setSink s

/-- The connectors as a machine calls them. -/
def wiring (kind : Role → String) : Wiring JobSite where
  kind := kind
  openCall
    | .source, time, s => s.onSource (s.source.openCall time s.host)
    | .sink, time, s => s.onSink (s.sink.openCall time s.host)
  readCall time s := s.onSource (s.source.readCall time s.host)
  writeCall time batch s := s.onSink (s.sink.writeCall time batch s.host)
  commitCall time s := s.onSink (s.sink.commitCall time s.host)
  closeCall
    | .source, time, s => s.onSource (s.source.closeCall time s.host)
    | .sink, time, s => s.onSink (s.sink.closeCall time s.host)
  asksToCancel s := s.host.mock.asksToCancel

end JobSite

/-- When a job is cancelled from outside: before it begins, or at a time. -/
structure Cancellation where
  before : Bool := false
  at? : Option Nat := none

/-- What remains of a job: the host, the report or the failure, the states passed, and the time
taken in milliseconds. -/
structure JobOutcome where
  host : Host
  result : JobResult JobReport
  progress : JobProgress
  elapsed : Nat

namespace Host

/-- Publishes the result table of a completed job, where the plan names one. -/
def publish (h : Host) (registry : ConnectorRegistry) (plan : Plan) (p : JobProgress)
    (receipt : CommitReceipt) : Host :=
  match plan.resultTable with
  | none => h
  | some name =>
      let table : ResultTable :=
        { name
          sourceKind := plan.source.kind
          sourceOptions := registry.redactOptions .source plan.source
          schema := p.schema
          rows := p.rowsRead
          location := receipt.location }
      { h with results := h.results.publish table }

/-- The job that has failed. -/
def failed (h : Host) (p : JobProgress) (e : JobError) (elapsed : Nat) : JobOutcome :=
  ⟨h, .error e, p.enter .failed, elapsed⟩

/-- Makes the connectors of a plan. -/
def makeSite (h : Host) (registry : ConnectorRegistry) (plan : Plan) : JobResult JobSite :=
  match registry.makeSource h.nextRun plan.source.kind plan.source.options with
  | .error e => .error e
  | .ok source =>
      match registry.makeSink h.nextRun plan.sink.kind plan.sink.options with
      | .error e => .error e
      | .ok sink => .ok ⟨source, sink, { h with nextRun := h.nextRun.next }⟩

/-- The kinds of the connectors of a site. -/
def siteKind (site : JobSite) : Role → String
  | .source => site.source.kind
  | .sink => site.sink.kind

/-- The end of a job whose machine has stopped. -/
def concludeJob (registry : ConnectorRegistry) (plan : Plan) (run : RunId) (s : JobRun JobSite) :
    JobOutcome :=
  match s.outcome? with
  | some (.ok receipt) =>
      let p := s.progress.enter .completed
      let report : JobReport :=
        ⟨run, plan.source.kind, plan.sink.kind, p, receipt, plan.resultTable, s.time⟩
      ⟨s.state.host.publish registry plan p receipt, .ok report, p, s.time⟩
  | some (.error e) => failed s.state.host s.progress e s.time
  | none => failed s.state.host s.progress .cancelled s.time

/-- Runs a plan. -/
def runPlan (h : Host) (registry : ConnectorRegistry) (settings : JobSettings) (plan : Plan)
    (cancellation : Cancellation) : JobOutcome :=
  match h.makeSite registry plan with
  | .error e => failed h (JobProgress.planned.enter .resolving) e 0
  | .ok site =>
      let job := JobRun.start site cancellation.before cancellation.at?
      concludeJob registry plan h.nextRun (job.finish (JobSite.wiring (siteKind site)) settings)

/-- Runs a statement. -/
def runStatement (h : Host) (registry : ConnectorRegistry) (settings : JobSettings)
    (text : String) (cancellation : Cancellation) : JobOutcome :=
  match Statement.parse text with
  | .error e => failed h .planned (.statement e) 0
  | .ok plan => h.runPlan registry settings plan cancellation

end Host

end BatchTransfer
