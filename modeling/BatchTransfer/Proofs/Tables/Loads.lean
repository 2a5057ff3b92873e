import BatchTransfer.Proofs.Tables.Direct

/-!
# Jobs that load a stream

A job that is not cancelled, and whose source can be opened and answers with a stream, comes to an
end that the stream and the sink determine (`Streams.reason`). Into a table that is appended to or
overwritten it completes exactly if the stream ends well and its batches have the wanted columns,
and then the table is loaded (`Host.PlanRun.takes_direct`).
-/

namespace BatchTransfer

open JobEvent (streamRead? answers)

/-- A run that is not cancelled and whose source can be opened and answers with a stream. -/
structure Streams (stream : Stream) (events : List JobEvent) (result : JobResult JobReport) :
    Prop where
  uncancelled : result ≠ .error .cancelled
  opened : ∀ kind e, result ≠ .error (.connection .source kind e)
  read : ∀ answer, .read answer ∈ events → answer = .ok stream

/-- Whether a stream ends well and its batches have the wanted columns. -/
def Stream.Fits (stream : Stream) (projection : Projection) : Prop :=
  stream.EndsNormally ∧
    ∀ batch ∈ stream.nonEmptyBatches, ∃ b, batch.project projection = .ok b

variable {stream : Stream} {events : List JobEvent} {result : JobResult JobReport}

/-- The stream that has been read is the one that the source answers with. -/
theorem Streams.eq_of_streamRead? (h : Streams stream events result) {other : Stream}
    (hread : streamRead? events = some other) : other = stream := by
  obtain ⟨event, hevent, hstream⟩ := List.exists_of_findSome?_eq_some hread
  unfold JobEvent.stream? at hstream
  split at hstream
  · cases hstream
    exact Except.ok.inj (h.read _ hevent)
  · cases hstream

/-- Why such a run fails: its stream does not end well, or a call of the sink has failed for one of
the reasons of its milestones. -/
theorem Streams.reason {σ : Type} {w : Wiring σ} {m : Milestones σ} {e : JobError}
    (h : Streams stream events (.error e)) (hexplains : w.Explains (answers events) e)
    (hreasons : m.Reasons (answers events)) :
    ¬ stream.EndsNormally ∨
      (∃ e', e = .connection .sink (w.kind .sink) e' ∧ m.refusal e') ∨
      (∃ attempts e' batch, e = .sinkWrite (w.kind .sink) attempts e' ∧
        batch ∈ stream.nonEmptyBatches ∧ m.rejection batch e') ∨
      ∃ e', m.failure stream.nonEmptyBatches e' := by
  have hsame {other : Stream} (hread : streamRead? (answers events) = some other) :
      other = stream := by
    rw [JobEvent.streamRead?_answers] at hread
    exact h.eq_of_streamRead? hread
  cases hexplains with
  | @unopened role e hopened =>
      cases role with
      | source => exact absurd rfl (h.opened _ _)
      | sink => exact .inr (.inl ⟨e, rfl, hreasons.opened e hopened⟩)
  | @unread e hread =>
      rw [JobEvent.mem_answers rfl] at hread
      cases h.read _ hread
  | broken hread hbroken =>
      rw [hsame hread] at hbroken
      exact .inl hbroken
  | @unwritten _ batch attempts e hread hbatch hwritten =>
      rw [hsame hread] at hbatch
      exact .inr (.inr (.inl ⟨attempts, e, batch, rfl, hbatch, hreasons.written batch e hwritten⟩))
  | @uncommitted e hcommitted =>
      obtain ⟨other, hread, hfailure⟩ := hreasons.committed e hcommitted
      rw [hsame hread] at hfailure
      exact .inr (.inr (.inr ⟨e, hfailure⟩))
  | cancelled => exact absurd rfl h.uncancelled

/-- What comes of a job that gives a stream to a target: it completes exactly if the stream fits, and
then the target is loaded. -/
structure Target.Takes (target : Target) (stream : Stream) (outcome : JobOutcome) : Prop where
  completes : (∃ report, outcome.result = .ok report) ↔ stream.Fits target.projection
  loads : ∀ report, outcome.result = .ok report → ∃ written,
    target.Loaded stream.nonEmptyBatches written report.progress.rowsWritten report.receipt
      outcome.host.tables

/-- A job takes its stream to a target if it loads the target with a stream that ends well whenever
it completes, and fails for no other reason than the stream. -/
theorem Target.Takes.of_loads {target : Target} {outcome : JobOutcome}
    (hkeeps : target.leavesOut = false)
    (hloads : ∀ report, outcome.result = .ok report → stream.EndsNormally ∧ ∃ written,
      target.Loaded stream.nonEmptyBatches written report.progress.rowsWritten report.receipt
        outcome.host.tables)
    (hfails : ∀ e, outcome.result = .error e → stream.EndsNormally →
      ∃ batch ∈ stream.nonEmptyBatches, ∃ e', batch.project target.projection = .error e') :
    target.Takes stream outcome where
  completes := by
    constructor
    · rintro ⟨report, hreport⟩
      obtain ⟨hnormal, written, hloaded⟩ := hloads report hreport
      exact ⟨hnormal, fun batch hbatch => hloaded.exists_project hkeeps hbatch⟩
    · rintro ⟨hnormal, hprojects⟩
      cases hresult : outcome.result with
      | ok report => exact ⟨report, rfl⟩
      | error e =>
          obtain ⟨batch, hbatch, e', herror⟩ := hfails e hresult hnormal
          obtain ⟨b, hb⟩ := hprojects batch hbatch
          cases herror.symm.trans hb
  loads report hreport := (hloads report hreport).2

namespace Host

variable {h : Host} {registry : ConnectorRegistry} {settings : JobSettings} {plan : Plan}
  {cancellation : Cancellation} {outcome : JobOutcome} {source : Source} {target : String}
  {mode : SaveMode} {projection : Projection}

/-- What a job into a table comes to: if it is completed, the whole stream of its source is loaded
into the target. -/
theorem PlanRun.loads_direct {sink : MemorySink}
    (hrun : h.PlanRun registry settings plan cancellation events outcome)
    (hfresh : sink.discards = false) (hrows : sink.rows = 0)
    (hsite : h.makeSite registry plan =
      .ok ⟨source, .memory sink, { h with nextRun := h.nextRun.next }⟩) :
    (sink.milestones h.tables).Reasons (answers events) ∧
      (∀ e, outcome.result = .error e → ∃ kind, (JobSite.wiring kind).Explains (answers events) e) ∧
      ∀ report, outcome.result = .ok report → ∃ stream written,
        streamRead? events = some stream ∧ stream.EndsNormally ∧
        (sink.aim h.tables).Loaded stream.nonEmptyBatches written report.progress.rowsWritten
          report.receipt outcome.host.tables := by
  obtain ⟨hreasons, hfailed, hcompleted⟩ := hrun.reaches hsite
    (MemorySink.reaches _ h.tables hfresh hrows) ⟨rfl, rfl⟩
  refine ⟨hreasons, fun e he => ⟨_, hfailed e he⟩, fun report hreport => ?_⟩
  obtain ⟨final, stream, hread, hnormal, ⟨-, written, -, hloaded⟩, hhost, -⟩ :=
    hcompleted report hreport
  refine ⟨stream, written, hread, hnormal, ?_⟩
  rw [hhost, tables_publish]
  exact hloaded

/-- A job into a table, which appends to it or overwrites it. -/
theorem PlanRun.takes_direct (hrun : h.PlanRun registry settings plan cancellation events outcome)
    (hstreams : Streams stream events outcome.result)
    (hmode : mode = .append ∨ mode = .overwrite)
    (hsite : h.makeSite registry plan = .ok
      ⟨source, .memory ⟨target, mode, projection, false, 0⟩, { h with nextRun := h.nextRun.next }⟩) :
    Target.Takes ⟨target, mode, projection, false, h.tables⟩ stream outcome := by
  have hkeeps : (⟨target, mode, projection, false, 0⟩ : MemorySink).leavesOut h.tables = false := by
    rcases hmode with rfl | rfl <;> rfl
  obtain ⟨hreasons, hfailed, hloads⟩ := hrun.loads_direct rfl rfl hsite
  refine .of_loads rfl (fun report hreport => ?_) fun e hresult hnormal => ?_
  · obtain ⟨other, written, hread, hnormal, hloaded⟩ := hloads report hreport
    cases hstreams.eq_of_streamRead? hread
    rw [MemorySink.aim, hkeeps] at hloaded
    exact ⟨hnormal, written, hloaded⟩
  · obtain ⟨kind, hexplains⟩ := hfailed e hresult
    rw [hresult] at hstreams
    rcases hstreams.reason hexplains hreasons with
      hbroken | ⟨_, -, hrefused, -⟩ | ⟨_, e', batch, -, hbatch, -, hrejected⟩ | ⟨_, hnever⟩
    · exact absurd hnormal hbroken
    · rcases hmode with rfl | rfl <;> cases hrefused
    · exact ⟨batch, hbatch, e', hrejected⟩
    · exact hnever.elim

end Host

end BatchTransfer
