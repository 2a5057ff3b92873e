import BatchTransfer.Proofs.Job.Counts

/-!
# The connectors of a plan

The connectors of a plan share a host. A call of one of them ends as the connector has it, or is
given up in between (`JobSite.ends_onSource`, `JobSite.ends_onSink`). `Call.Leaves` says of a part
of the host that a call leaves it alone: a source changes nothing but what rehearsals keep, and
neither a source nor a sink changes a published result. `Host.PlanRun.exists_final` is what a run of a
plan comes to, in terms of the course that its connectors have seen.
-/

namespace BatchTransfer

open JobEvent (answers streamRead? allAcknowledged rowsAcknowledged)

namespace Call

variable {σ α γ : Type} {c : Call σ α} {s t : σ} {part : σ → γ} {answer : ConnectorResult α}

/-- A call that leaves a part of the state alone, when it is entered and when it ends. -/
def Leaves (part : σ → γ) (s : σ) (c : Call σ α) : Prop :=
  part c.state = part s ∧ ∀ t, part (c.finish t).1 = part t

theorem Leaves.ends (h : c.Leaves part s) (hends : c.Ends t answer) : part t = part s := by
  obtain ⟨hentered, hfinish⟩ := h
  cases hends with
  | done hcomplete =>
      have hend := hfinish c.state
      rw [show c.finish c.state = (t, answer) from hcomplete] at hend
      exact hend.trans hentered
  | givenUp => exact hentered

/-- A call that takes effect at once has one end. -/
theorem ends_now (h : (now s answer).Ends t answer') : t = s ∧ answer' = answer := by
  cases h with
  | done hcomplete =>
      cases hcomplete
      exact ⟨rfl, rfl⟩
  | givenUp hdelay => cases hdelay

end Call

/-- The host without what rehearsals keep in it. -/
def Host.withoutRehearsals (h : Host) : Host := { h with mock := {}, stage := {} }

/-! ### What calls leave alone -/

namespace Source

variable (x : Source) (time : Nat) (h : Host)

theorem openCall_leaves : (x.openCall time h).Leaves (·.2.withoutRehearsals) (x, h) := by
  cases x <;> exact ⟨rfl, fun _ => rfl⟩

theorem readCall_leaves : (x.readCall time h).Leaves (·.2.withoutRehearsals) (x, h) := by
  cases x <;> exact ⟨rfl, fun _ => rfl⟩

theorem closeCall_leaves : (x.closeCall time h).Leaves (·.2.withoutRehearsals) (x, h) := by
  cases x <;> exact ⟨rfl, fun _ => rfl⟩

end Source

namespace Sink

variable (x : Sink) (time : Nat) (batch : Batch) (h : Host)

theorem openCall_leaves : (x.openCall time h).Leaves (·.2.results) (x, h) := by
  cases x <;> exact ⟨rfl, fun _ => rfl⟩

theorem writeCall_leaves : (x.writeCall time batch h).Leaves (·.2.results) (x, h) := by
  cases x <;> exact ⟨rfl, fun _ => rfl⟩

theorem commitCall_leaves : (x.commitCall time h).Leaves (·.2.results) (x, h) := by
  cases x <;> exact ⟨rfl, fun _ => rfl⟩

theorem closeCall_leaves : (x.closeCall time h).Leaves (·.2.results) (x, h) := by
  cases x <;> exact ⟨rfl, fun _ => rfl⟩

end Sink

namespace JobSite

variable {α γ : Type} {site t : JobSite} {answer : ConnectorResult α}

/-- A call of the source ends as the source has it, or is given up in between. -/
theorem ends_onSource {c : Call (Source × Host) α} (h : (site.onSource c).Ends t answer) :
    ∃ p, c.Ends p answer ∧ t = setSource p site := by
  cases h with
  | done h =>
      cases h
      exact ⟨_, .done rfl, rfl⟩
  | givenUp hdelay => exact ⟨_, .givenUp hdelay, rfl⟩

/-- A call of the sink ends as the sink has it, or is given up in between. -/
theorem ends_onSink {c : Call (Sink × Host) α} (h : (site.onSink c).Ends t answer) :
    ∃ p, c.Ends p answer ∧ t = setSink p site := by
  cases h with
  | done h =>
      cases h
      exact ⟨_, .done rfl, rfl⟩
  | givenUp hdelay => exact ⟨_, .givenUp hdelay, rfl⟩

/-- A call of a sink that takes effect at once, on the sink and on a part of the host. -/
theorem ends_now_onSink {κ ρ : Type} (wrap : κ → Sink) (part : Host → ρ) (update : Host → ρ → Host)
    (hpart : ∀ host r, part (update host r) = r) (call : Sink → Host → Call (Sink × Host) α)
    (effect : κ → ρ → (κ × ρ) × ConnectorResult α)
    (hcall : ∀ k host, call (wrap k) host =
      .now (wrap (effect k (part host)).1.1, update host (effect k (part host)).1.2)
        (effect k (part host)).2)
    {k : κ} (hsink : site.sink = wrap k)
    (hends : (site.onSink (call site.sink site.host)).Ends t answer) :
    ∃ k', t.sink = wrap k' ∧ effect k (part site.host) = ((k', part t.host), answer) := by
  obtain ⟨p, hcallEnds, rfl⟩ := ends_onSink hends
  clear hends
  rw [hsink, hcall] at hcallEnds
  obtain ⟨rfl, rfl⟩ := Call.ends_now hcallEnds
  exact ⟨_, rfl, Prod.ext (Prod.ext rfl (hpart _ _).symm) rfl⟩

/-- No call of the source changes a table, a file, a shared object or a published result. -/
theorem host_eq_of_onSource {c : Call (Source × Host) α}
    (hc : c.Leaves (·.2.withoutRehearsals) (site.source, site.host))
    (h : (site.onSource c).Ends t answer) :
    t.sink = site.sink ∧ t.host.withoutRehearsals = site.host.withoutRehearsals := by
  obtain ⟨p, hends, rfl⟩ := ends_onSource h
  exact ⟨rfl, hc.ends hends⟩

/-- No call of the source changes the sink or a table. -/
theorem tables_eq_of_onSource {c : Call (Source × Host) α}
    (hc : c.Leaves (·.2.withoutRehearsals) (site.source, site.host))
    (h : (site.onSource c).Ends t answer) :
    t.sink = site.sink ∧ t.host.tables = site.host.tables := by
  obtain ⟨hsink, hhost⟩ := host_eq_of_onSource hc h
  exact ⟨hsink, (congrArg Host.tables hhost :)⟩

/-- No call of the sink changes a published result. -/
theorem results_eq_of_onSink {c : Call (Sink × Host) α}
    (hc : c.Leaves (·.2.results) (site.sink, site.host)) (h : (site.onSink c).Ends t answer) :
    t.host.results = site.host.results := by
  obtain ⟨p, hends, rfl⟩ := ends_onSink h
  exact hc.ends hends

/-- No call of a connector changes a published result. -/
theorem wiring_keeps_results (kind : Role → String) (results : Results) :
    (wiring kind).Keeps fun site => site.host.results = results := by
  have hsource {α : Type} {site t : JobSite} {c : Call (Source × Host) α}
      {answer : ConnectorResult α} (hsame : site.host.results = results)
      (hc : c.Leaves (·.2.withoutRehearsals) (site.source, site.host))
      (h : (site.onSource c).Ends t answer) : t.host.results = results := by
    obtain ⟨-, hhost⟩ := host_eq_of_onSource hc h
    exact (congrArg Host.results hhost :).trans hsame
  constructor
  · intro role time site t answer hsame hcall
    cases role with
    | source => exact hsource hsame (Source.openCall_leaves ..) hcall
    | sink => exact (results_eq_of_onSink (Sink.openCall_leaves ..) hcall).trans hsame
  · exact fun hsame hcall => hsource hsame (Source.readCall_leaves ..) hcall
  · exact fun hsame hcall =>
      (results_eq_of_onSink (Sink.writeCall_leaves ..) hcall).trans hsame
  · exact fun hsame hcall =>
      (results_eq_of_onSink (Sink.commitCall_leaves ..) hcall).trans hsame
  · intro role time site t answer hsame hcall
    cases role with
    | source => exact hsource hsame (Source.closeCall_leaves ..) hcall
    | sink => exact (results_eq_of_onSink (Sink.closeCall_leaves ..) hcall).trans hsame

end JobSite

/-! ### Runs of plans -/

namespace Host

variable {h : Host} {registry : ConnectorRegistry} {settings : JobSettings} {plan : Plan}
  {cancellation : Cancellation} {events : List JobEvent} {outcome : JobOutcome} {site : JobSite}

theorem concludeJob_ok {run : RunId} {s : JobRun JobSite} {receipt : CommitReceipt}
    (houtcome : s.outcome? = some (.ok receipt)) :
    concludeJob registry plan run s =
      ⟨s.state.host.publish registry plan (s.progress.enter .completed) receipt,
        .ok ⟨run, plan.source.kind, plan.sink.kind, s.progress.enter .completed, receipt,
          plan.resultTable, s.time⟩,
        s.progress.enter .completed, s.time⟩ := by
  simp only [concludeJob, houtcome]

theorem concludeJob_error {run : RunId} {s : JobRun JobSite} {e : JobError}
    (houtcome : s.outcome? = some (.error e)) :
    concludeJob registry plan run s = failed s.state.host s.progress e s.time := by
  simp only [concludeJob, houtcome]

/-- What is published changes no table. -/
theorem tables_publish (p : JobProgress) (receipt : CommitReceipt) :
    (h.publish registry plan p receipt).tables = h.tables := by
  unfold publish
  split <;> rfl

/-- A plan whose connectors cannot be made fails and leaves the host as it is. -/
theorem PlanRun.of_makeSite_error {e : JobError}
    (hrun : h.PlanRun registry settings plan cancellation events outcome)
    (hsite : h.makeSite registry plan = .error e) :
    outcome.result = .error e ∧ outcome.host = h := by
  cases hrun with
  | unresolved hsite' =>
      cases hsite.symm.trans hsite'
      exact ⟨rfl, rfl⟩
  | resolved hsite' => cases hsite.symm.trans hsite'

/-- A plan whose connectors cannot be made is not completed. -/
theorem PlanRun.ne_ok_of_makeSite
    (hrun : h.PlanRun registry settings plan cancellation events outcome)
    (hnone : ∀ site, h.makeSite registry plan ≠ .ok site) (report : JobReport) :
    outcome.result ≠ .ok report := by
  cases hsite : h.makeSite registry plan with
  | ok site => exact absurd hsite (hnone site)
  | error e =>
      obtain ⟨hresult, -⟩ := hrun.of_makeSite_error hsite
      rw [hresult]
      nofun

/-- A completed run of a plan has made its connectors. -/
theorem PlanRun.exists_site (hrun : h.PlanRun registry settings plan cancellation events outcome)
    {report : JobReport} (hresult : outcome.result = .ok report) :
    ∃ site, h.makeSite registry plan = .ok site := by
  by_contra hnone
  exact hrun.ne_ok_of_makeSite (not_exists.mp hnone) report hresult

/-- What a run comes to whose connectors can be made: its course ends as the run does. One that
is completed has read the whole stream, and reports the rows of the source and the rows that the
sink has acknowledged. -/
theorem PlanRun.exists_final
    (hrun : h.PlanRun registry settings plan cancellation events outcome)
    (hsite : h.makeSite registry plan = .ok site) :
    ∃ final : JobSite,
      (∀ e, outcome.result = .error e →
        (JobSite.wiring (siteKind site)).Course site (.ending (.error e)) (answers events) final ∧
        outcome.host = final.host) ∧
      ∀ report, outcome.result = .ok report →
        (JobSite.wiring (siteKind site)).Course site (.ending (.ok report.receipt)) (answers events)
          final ∧
        outcome.host = final.host.publish registry plan report.progress report.receipt ∧
        report.progress.rowsWritten = rowsAcknowledged (answers events) ∧
        ∃ stream, streamRead? events = some stream ∧ stream.EndsNormally ∧
          allAcknowledged (answers events) = stream.nonEmptyBatches ∧
          report.progress.rowsRead = Batch.totalSize stream.batches := by
  cases hrun with
  | unresolved hsite' => cases hsite.symm.trans hsite'
  | @resolved site' _ s hsite' hrun hended =>
      cases hsite.symm.trans hsite'
      obtain ⟨answer, hcontrol⟩ := JobRun.hasEnded_iff.mp hended
      have houtcome := JobRun.outcome?_eq_some_iff.mpr hcontrol
      have hcourse := hrun.course_of_outcome? houtcome
      refine ⟨s.state, ?_⟩
      cases answer with
      | error e =>
          rw [concludeJob_error houtcome]
          exact ⟨by rintro _ ⟨⟩; exact ⟨hcourse, rfl⟩, nofun⟩
      | ok receipt =>
          rw [concludeJob_ok houtcome]
          refine ⟨nofun, ?_⟩
          rintro _ ⟨⟩
          have hcommits : s.control.commits = true := by
            rw [hcontrol]
            rfl
          obtain ⟨stream, hstream, hnormal, hall⟩ := Delivery.whole_of_trace hrun hcommits
          refine ⟨hcourse, rfl, ?_, stream, hstream, hnormal,
            (JobEvent.allAcknowledged_answers events).trans hall,
            hrun.rowsRead_of_commits hcommits hstream⟩
          rw [JobEvent.rowsAcknowledged_answers]
          exact (JobRun.Counts.of_trace hrun).written

end Host

end BatchTransfer
