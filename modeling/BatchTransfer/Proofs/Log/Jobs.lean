import BatchTransfer.Proofs.Job.Milestones
import BatchTransfer.Proofs.Log.Printing

/-!
# What jobs print

A job gives its batches to a sink that prints one after another, and nothing else prints in between.
So the sink of a completed job has printed the first rows of the whole stream, behind what had been
printed before, and has counted all rows (`Host.PlanRun.prints`).
-/

namespace BatchTransfer

open JobEvent (streamRead?)

namespace LogSink

/-- What is known of a sink that has acknowledged batches: it has printed the first rows of them and
has counted all. -/
structure Printed (start : LogSink) (before : List String) (batches projected : List Batch)
    (sink : LogSink) (log : List String) : Prop where
  projects : batches.map (·.project start.projection) = projected.map .ok
  sink_eq : sink = start.after (Batch.totalSize projected)
  log_eq : log = before ++ start.printout projected

variable {α : Type} {start sink sink' : LogSink} {before log : List String}
  {batches projected : List Batch} {batch : Batch} {site t : JobSite}
  {answer : ConnectorResult α}

namespace Printed

theorem opened (start : LogSink) (before : List String) : start.Printed before [] [] start before :=
  ⟨rfl, start.after_zero.symm, (List.append_nil _).symm⟩

/-- A batch that is acknowledged is printed behind those before. -/
theorem write (h : start.Printed before batches projected sink log) {lines : List String}
    {ack : Acknowledgement} (hwrite : sink.write batch = (sink', lines, .ok ack)) :
    ∃ p, start.Printed before (batches ++ [batch]) (projected ++ [p]) sink' (log ++ lines) ∧
      ack.rows = p.size := by
  obtain ⟨hprojects, rfl, rfl⟩ := h
  cases hproject : batch.project start.projection with
  | error e =>
      cases ((start.after _).write_eq_error batch hproject).symm.trans hwrite
  | ok p =>
      cases ((start.after _).write_eq batch p hproject).symm.trans hwrite
      refine ⟨p, ⟨?_, ?_, ?_⟩, rfl⟩
      · rw [List.map_append, List.map_append, hprojects, List.map_singleton, hproject,
          List.map_singleton]
      · rw [after_after, Batch.totalSize_append, Batch.totalSize_singleton]
      · rw [printout_append, List.append_assoc]

end Printed

/-- A batch that is not acknowledged leaves nothing behind. -/
theorem write_error {lines : List String} {e : ConnectorError}
    (h : sink.write batch = (sink', lines, .error e)) : sink' = sink ∧ lines = [] := by
  cases hproject : batch.project sink.projection with
  | error e' =>
      cases (write_eq_error _ batch hproject).symm.trans h
      exact ⟨rfl, rfl⟩
  | ok p => cases (write_eq _ batch p hproject).symm.trans h

/-! ### Jobs -/

/-- The milestones of a job that prints. For what reasons a call may fail is left open. -/
def milestones (start : LogSink) (before : List String) : Milestones JobSite where
  unopened site := site.sink = .log start ∧ site.host.log = before
  taking batches rows site := ∃ sink projected, site.sink = .log sink ∧
    start.Printed before batches projected sink site.host.log ∧ rows = Batch.totalSize projected
  committed batches rows receipt site := ∃ sink projected log, site.sink = .log sink ∧
    start.Printed before batches projected sink log ∧ rows = Batch.totalSize projected ∧
    site.host.log = log ++ sink.commit.1 ∧ receipt = sink.commit.2
  refusal _ := True
  rejection _ _ := True
  failure _ _ := True

/-- A call of a sink that prints takes effect at once, on the sink and on what has been printed. -/
theorem ends_onSink (call : Sink → Host → Call (Sink × Host) α)
    (effect : LogSink → LogSink × List String × ConnectorResult α)
    (hcall : ∀ l host, call (.log l) host =
      .now (.log (effect l).1, { host with log := host.log ++ (effect l).2.1 }) (effect l).2.2)
    (hsink : site.sink = .log sink)
    (hends : (site.onSink (call site.sink site.host)).Ends t answer) :
    ∃ sink' lines, t.sink = .log sink' ∧ t.host.log = site.host.log ++ lines ∧
      effect sink = (sink', lines, answer) := by
  obtain ⟨sink', hsink', heffect⟩ := JobSite.ends_now_onSink .log Host.log
    (fun host log => { host with log }) (fun _ _ => rfl) call
    (fun l log => (((effect l).1, log ++ (effect l).2.1), (effect l).2.2)) hcall hsink hends
  simp only [Prod.mk.injEq] at heffect
  obtain ⟨⟨hfirst, hlog⟩, hanswer⟩ := heffect
  exact ⟨sink', _, hsink', hlog.symm, Prod.ext hfirst (Prod.ext rfl hanswer)⟩

/-- A call that leaves the sink and what has been printed alone. -/
theorem quiet_onSink (call : Sink → Host → Call (Sink × Host) Unit)
    (hcall : ∀ l host, call (.log l) host = .now (.log l, host) (.ok ()))
    (hsink : site.sink = .log sink) {answer : ConnectorResult Unit}
    (hends : (site.onSink (call site.sink site.host)).Ends t answer) :
    t.sink = .log sink ∧ t.host.log = site.host.log ∧ answer = .ok () := by
  obtain ⟨sink', lines, hsink', hlog, heffect⟩ := ends_onSink call (fun l => (l, [], .ok ()))
    (fun l host => by rw [hcall, List.append_nil]) hsink hends
  cases heffect
  rw [List.append_nil] at hlog
  exact ⟨hsink', hlog, rfl⟩

/-- A change of neither the sink nor what has been printed. -/
theorem milestones_kept {s t : JobSite} (h : t.sink = s.sink ∧
      t.host.withoutRehearsals = s.host.withoutRehearsals) :
    (start.milestones before).Kept s t := by
  obtain ⟨hsink, hhost⟩ := h
  have hlog : t.host.log = s.host.log := (congrArg Host.log hhost :)
  refine ⟨?_, fun _ _ => ?_, fun _ _ _ => ?_⟩
  · rintro ⟨hs, hbefore⟩
    exact ⟨hsink.trans hs, hlog.trans hbefore⟩
  · rintro ⟨sink, projected, hs, hprinted, hrows⟩
    exact ⟨sink, projected, hsink.trans hs, hlog ▸ hprinted, hrows⟩
  · rintro ⟨sink, projected, log, hs, hprinted, hrows, hlast, hreceipt⟩
    exact ⟨sink, projected, log, hsink.trans hs, hprinted, hrows, hlog.trans hlast, hreceipt⟩

/-- A job that prints passes its milestones. -/
theorem reaches (start : LogSink) (before : List String) (kind : Role → String) :
    (JobSite.wiring kind).Reaches (start.milestones before) where
  opens_source hcall :=
    milestones_kept (JobSite.host_eq_of_onSource (Source.openCall_leaves ..) hcall)
  reads hcall := milestones_kept (JobSite.host_eq_of_onSource (Source.readCall_leaves ..) hcall)
  closes_source hcall :=
    milestones_kept (JobSite.host_eq_of_onSource (Source.closeCall_leaves ..) hcall)
  refuses := by
    rintro time s t e ⟨hsink, -⟩ hcall
    obtain ⟨-, -, ⟨⟩⟩ := quiet_onSink (fun x host => x.openCall time host) (fun _ _ => rfl) hsink
      hcall
  opens := by
    rintro time s t ⟨hsink, rfl⟩ hcall
    obtain ⟨hsink', hlog, -⟩ := quiet_onSink (fun x host => x.openCall time host) (fun _ _ => rfl)
      hsink hcall
    exact ⟨start, [], hsink', hlog ▸ Printed.opened start s.host.log, rfl⟩
  rejects := by
    rintro time batch batches rows s t e ⟨sink, projected, hsink, hprinted, hrows⟩ hcall
    obtain ⟨sink', lines, hsink', hlog, heffect⟩ := ends_onSink
      (fun x host => x.writeCall time batch host) (fun l => l.write batch) (fun _ _ => rfl) hsink
      hcall
    obtain ⟨rfl, rfl⟩ := write_error heffect
    rw [List.append_nil] at hlog
    exact ⟨⟨sink', projected, hsink', hlog ▸ hprinted, hrows⟩, trivial⟩
  writes := by
    rintro time batch batches rows s t ack ⟨sink, projected, hsink, hprinted, hrows⟩ - hcall
    obtain ⟨sink', lines, hsink', hlog, heffect⟩ := ends_onSink
      (fun x host => x.writeCall time batch host) (fun l => l.write batch) (fun _ _ => rfl) hsink
      hcall
    obtain ⟨p, hprinted', hack⟩ := hprinted.write heffect
    exact ⟨sink', projected ++ [p], hsink', hlog ▸ hprinted', by simp [hrows, hack]⟩
  fails _ _ := trivial
  commits := by
    rintro time batches rows s t receipt ⟨sink, projected, hsink, hprinted, hrows⟩ hcall
    obtain ⟨sink', lines, hsink', hlog, heffect⟩ := ends_onSink
      (fun x host => x.commitCall time host) (fun l => (l, l.commit.1, .ok l.commit.2))
      (fun _ _ => rfl) hsink hcall
    cases heffect
    exact ⟨sink, projected, _, hsink', hprinted, hrows, hlog, rfl⟩
  closes := by
    rintro time batches rows receipt s t answer ⟨sink, projected, log, hsink, hprinted, hend⟩ hcall
    obtain ⟨hsink', hlog, -⟩ := quiet_onSink (fun x host => x.closeCall time host) (fun _ _ => rfl)
      hsink hcall
    exact ⟨sink, projected, log, hsink', hprinted, hlog.symm ▸ hend⟩

end LogSink

namespace Host

variable {h : Host} {registry : ConnectorRegistry} {settings : JobSettings} {plan : Plan}
  {cancellation : Cancellation} {events : List JobEvent} {outcome : JobOutcome} {source : Source}
  {start : LogSink}

/-- What is published prints nothing. -/
theorem log_publish (p : JobProgress) (receipt : CommitReceipt) :
    (h.publish registry plan p receipt).log = h.log := by
  unfold publish
  split <;> rfl

/-- A completed job that prints has printed the first rows of the whole stream, as far as they are
within the limit, and then how many there were if it has left rows out. It reports all rows. -/
theorem PlanRun.prints (hrun : h.PlanRun registry settings plan cancellation events outcome)
    (hsite : h.makeSite registry plan =
      .ok ⟨source, .log start, { h with nextRun := h.nextRun.next }⟩)
    {report : JobReport} (hresult : outcome.result = .ok report) :
    ∃ stream projected, streamRead? events = some stream ∧
      stream.nonEmptyBatches.map (·.project start.projection) = projected.map .ok ∧
      outcome.host.log = h.log ++ start.printout projected ++
        (start.after (Batch.totalSize projected)).commit.1 ∧
      report.progress.rowsWritten = Batch.totalSize projected ∧
      report.receipt = (start.after (Batch.totalSize projected)).commit.2 := by
  obtain ⟨-, -, hcompleted⟩ := hrun.reaches hsite (LogSink.reaches start h.log _) ⟨rfl, rfl⟩
  obtain ⟨final, stream, hread, -, ⟨_, projected, _, -, ⟨hprojects, rfl, rfl⟩, hrows, hlog,
    hreceipt⟩, hhost, -⟩ := hcompleted report hresult
  refine ⟨stream, projected, hread, hprojects, ?_, hrows, hreceipt⟩
  rw [hhost, log_publish, hlog]

end Host

end BatchTransfer
