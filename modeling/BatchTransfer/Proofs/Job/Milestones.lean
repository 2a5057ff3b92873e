import BatchTransfer.Proofs.Job.Sites

/-!
# The milestones of a sink

What a job makes of its sink is told by what is known before the sink is opened, while it takes
batches, and when it has committed them. Where each call of the sink leads from one of these
`Milestones` to the next and the source leaves them alone (`Wiring.Reaches`), a completed job has
come to the last of them with all batches of its stream, and every failed call has its reason
(`Wiring.Reaches.course`).
-/

namespace BatchTransfer

open JobEvent (allAcknowledged rowsAcknowledged streamRead? answers)

/-- What is known of the connectors of a job before its sink is opened, while the sink takes batches
and when it has committed: the batches that it has acknowledged, with the number of their rows. With
it go the reasons for which its calls may fail. -/
structure Milestones (σ : Type) where
  unopened : σ → Prop
  taking : List Batch → Nat → σ → Prop
  committed : List Batch → Nat → CommitReceipt → σ → Prop
  refusal : ConnectorError → Prop
  rejection : Batch → ConnectorError → Prop
  failure : List Batch → ConnectorError → Prop

variable {σ : Type} {w : Wiring σ} {m : Milestones σ} {s t start : σ}

namespace Milestones

/-- A change that leaves the sink alone. -/
structure Kept (m : Milestones σ) (s t : σ) : Prop where
  unopened : m.unopened s → m.unopened t
  taking : ∀ batches rows, m.taking batches rows s → m.taking batches rows t
  committed : ∀ batches rows receipt, m.committed batches rows receipt s →
    m.committed batches rows receipt t

/-- What is known of the connectors in a phase of the job, in which certain answers have been
given. -/
def Holds (m : Milestones σ) (events : List JobEvent) (s : σ) : Phase → Prop
  | .opening _ => m.unopened s ∧ allAcknowledged events = [] ∧ rowsAcknowledged events = 0
  | .reading | .transferring _ => m.taking (allAcknowledged events) (rowsAcknowledged events) s
  | .ending (.ok receipt) =>
      m.committed (allAcknowledged events) (rowsAcknowledged events) receipt s
  | .ending (.error _) => True

/-- Every call of the sink that has failed has failed for a reason. -/
structure Reasons (m : Milestones σ) (events : List JobEvent) : Prop where
  opened : ∀ e, .opened .sink (.error e) ∈ events → m.refusal e
  written : ∀ batch e, .written batch (.error e) ∈ events → m.rejection batch e
  committed : ∀ e, .committed (.error e) ∈ events →
    ∃ stream, streamRead? events = some stream ∧ m.failure stream.nonEmptyBatches e

variable {events : List JobEvent} {event : JobEvent}

theorem Reasons.concat (h : m.Reasons events)
    (hopened : ∀ e, event = .opened .sink (.error e) → m.refusal e)
    (hwritten : ∀ batch e, event = .written batch (.error e) → m.rejection batch e)
    (hcommitted : ∀ e, event = .committed (.error e) →
      ∃ stream, streamRead? events = some stream ∧ m.failure stream.nonEmptyBatches e) :
    m.Reasons (events ++ [event]) where
  opened e he := by
    rw [List.mem_append, List.mem_singleton] at he
    exact he.elim (h.opened e) fun he => hopened e he.symm
  written batch e he := by
    rw [List.mem_append, List.mem_singleton] at he
    exact he.elim (h.written batch e) fun he => hwritten batch e he.symm
  committed e he := by
    rw [List.mem_append, List.mem_singleton] at he
    obtain ⟨stream, hstream, hfailure⟩ := he.elim (h.committed e) fun he => hcommitted e he.symm
    exact ⟨stream, by rw [JobEvent.streamRead?_append, hstream]; rfl, hfailure⟩

/-- Where no call has acknowledged a batch and the sink has been left alone, the same is known as
before. -/
theorem Holds.kept {phase : Phase} (h : m.Holds events s phase) (hkept : m.Kept s t)
    (hevent : event.acknowledged? = none) : m.Holds (events ++ [event]) t phase := by
  obtain ⟨hall, hrows⟩ := JobEvent.acknowledged_concat events hevent
  unfold Holds at h ⊢
  rw [hall, hrows]
  split at h
  · exact ⟨hkept.unopened h.1, h.2⟩
  · exact hkept.taking _ _ h
  · exact hkept.taking _ _ h
  · exact hkept.committed _ _ _ h
  · trivial

end Milestones

/-- Every call of the sink of a wiring leads from one milestone to the next, or fails for a reason.
The calls of the source leave the sink alone. -/
structure Wiring.Reaches (w : Wiring σ) (m : Milestones σ) : Prop where
  opens_source : ∀ {time s t answer}, (w.openCall .source time s).Ends t answer → m.Kept s t
  reads : ∀ {time s t answer}, (w.readCall time s).Ends t answer → m.Kept s t
  closes_source : ∀ {time s t answer}, (w.closeCall .source time s).Ends t answer → m.Kept s t
  refuses : ∀ {time s t e}, m.unopened s → (w.openCall .sink time s).Ends t (.error e) →
    m.unopened t ∧ m.refusal e
  opens : ∀ {time s t}, m.unopened s → (w.openCall .sink time s).Ends t (.ok ()) → m.taking [] 0 t
  rejects : ∀ {time batch batches rows s t e}, m.taking batches rows s →
    (w.writeCall time batch s).Ends t (.error e) → m.taking batches rows t ∧ m.rejection batch e
  writes : ∀ {time batch batches rows s t ack}, m.taking batches rows s → batch.isEmpty = false →
    (w.writeCall time batch s).Ends t (.ok ack) →
    m.taking (batches ++ [batch]) (rows + ack.rows) t
  fails : ∀ {time batches rows s t e}, m.taking batches rows s →
    (w.commitCall time s).Ends t (.error e) → m.failure batches e
  commits : ∀ {time batches rows s t receipt}, m.taking batches rows s →
    (w.commitCall time s).Ends t (.ok receipt) → m.committed batches rows receipt t
  closes : ∀ {time batches rows receipt s t answer}, m.committed batches rows receipt s →
    (w.closeCall .sink time s).Ends t answer → m.committed batches rows receipt t

namespace Wiring.Reaches

variable {phase : Phase} {events : List JobEvent} {role : Role} {time : Nat} {e : ConnectorError}

/-- An opening that fails leaves everything to be done. -/
theorem refused (hw : w.Reaches m) (h : m.Holds events s (.opening role))
    (hreasons : m.Reasons events) (hcall : (w.openCall role time s).Ends t (.error e)) :
    m.Holds (events ++ [.opened role (.error e)]) t (.opening role) ∧
      m.Reasons (events ++ [.opened role (.error e)]) := by
  cases role with
  | source => exact ⟨h.kept (hw.opens_source hcall) rfl, hreasons.concat nofun nofun nofun⟩
  | sink =>
      obtain ⟨hunopened, hall, hrows⟩ := h
      obtain ⟨hunopened', hrefusal⟩ := hw.refuses hunopened hcall
      refine ⟨⟨hunopened', ?_⟩, hreasons.concat ?_ nofun nofun⟩
      · obtain ⟨hall', hrows'⟩ := JobEvent.acknowledged_concat events
          (e := .opened .sink (.error e)) rfl
        exact ⟨hall'.trans hall, hrows'.trans hrows⟩
      · rintro _ ⟨⟩
        exact hrefusal

/-- A write that fails has not been acknowledged. -/
theorem rejected (hw : w.Reaches m) {batch : Batch} {stream : Stream}
    (h : m.Holds events s (.transferring stream)) (hreasons : m.Reasons events)
    (hcall : (w.writeCall time batch s).Ends t (.error e)) :
    m.Holds (events ++ [.written batch (.error e)]) t (.transferring stream) ∧
      m.Reasons (events ++ [.written batch (.error e)]) := by
  obtain ⟨htaking, hrejection⟩ := hw.rejects h hcall
  refine ⟨?_, hreasons.concat nofun ?_ nofun⟩
  · obtain ⟨hall, hrows⟩ := JobEvent.acknowledged_concat events (e := .written batch (.error e)) rfl
    rw [Milestones.Holds, hall, hrows]
    exact htaking
  · rintro _ _ ⟨⟩
    exact hrejection

/-- A job comes from one milestone of its sink to the next along its course. -/
theorem course (hw : w.Reaches m) (hstart : m.unopened start)
    (h : w.Course start phase events s) : m.Holds events s phase ∧ m.Reasons events := by
  induction h with
  | start => exact ⟨⟨hstart, rfl, rfl⟩, nofun, nofun, nofun⟩
  | refused _ hcall ih =>
      obtain ⟨hholds, hreasons⟩ := ih
      exact hw.refused hholds hreasons hcall
  | unopened _ hcall ih =>
      obtain ⟨hholds, hreasons⟩ := ih
      obtain ⟨-, hreasons'⟩ := hw.refused hholds hreasons hcall
      exact ⟨trivial, hreasons'⟩
  | sourceOpened _ hcall ih =>
      obtain ⟨hholds, hreasons⟩ := ih
      exact ⟨hholds.kept (hw.opens_source hcall) rfl, hreasons.concat nofun nofun nofun⟩
  | sinkOpened _ hcall ih =>
      obtain ⟨⟨hunopened, hall, hrows⟩, hreasons⟩ := ih
      refine ⟨?_, hreasons.concat nofun nofun nofun⟩
      obtain ⟨hall', hrows'⟩ := JobEvent.acknowledged_concat _ (e := .opened .sink (.ok ())) rfl
      rw [Milestones.Holds, hall', hrows', hall, hrows]
      exact hw.opens hunopened hcall
  | read _ hcall ih =>
      obtain ⟨hholds, hreasons⟩ := ih
      exact ⟨hholds.kept (hw.reads hcall) rfl, hreasons.concat nofun nofun nofun⟩
  | unread _ _ ih => exact ⟨trivial, ih.2.concat nofun nofun nofun⟩
  | @written _ _ _ _ batch _ answer _ hbatch hcall ih =>
      obtain ⟨hholds, hreasons⟩ := ih
      cases answer with
      | error e => exact hw.rejected hholds hreasons hcall
      | ok ack =>
          refine ⟨?_, hreasons.concat nofun nofun nofun⟩
          have hrows : batch.isEmpty = false := by simpa using (List.mem_filter.mp hbatch).2
          rw [Milestones.Holds, JobEvent.allAcknowledged_append, JobEvent.rowsAcknowledged_append]
          exact hw.writes hholds hrows hcall
  | unwritten _ _ hcall ih =>
      obtain ⟨hholds, hreasons⟩ := ih
      obtain ⟨-, hreasons'⟩ := hw.rejected hholds hreasons hcall
      exact ⟨trivial, hreasons'⟩
  | broken _ _ ih | cancelled _ _ ih => exact ⟨trivial, ih.2⟩
  | @committed stream events _ _ _ answer hcourse _ hall hcall ih =>
      obtain ⟨hholds, hreasons⟩ := ih
      cases answer with
      | error e =>
          refine ⟨trivial, hreasons.concat nofun nofun ?_⟩
          rintro _ ⟨⟩
          obtain ⟨hread, -, -⟩ := hcourse.streamRead?_eq
          exact ⟨stream, hread stream rfl, hall ▸ hw.fails hholds hcall⟩
      | ok receipt =>
          refine ⟨?_, hreasons.concat nofun nofun nofun⟩
          obtain ⟨hall', hrows'⟩ := JobEvent.acknowledged_concat events
            (e := .committed (.ok receipt)) rfl
          change m.committed _ _ receipt _
          rw [hall', hrows']
          exact hw.commits hholds hcall
  | @closed outcome role events _ _ _ answer _ hcall ih =>
      obtain ⟨hholds, hreasons⟩ := ih
      refine ⟨?_, hreasons.concat nofun nofun nofun⟩
      cases role with
      | source => exact hholds.kept (hw.closes_source hcall) rfl
      | sink =>
          cases outcome with
          | error e => trivial
          | ok receipt =>
              obtain ⟨hall, hrows⟩ := JobEvent.acknowledged_concat events (e := .closed .sink) rfl
              rw [Milestones.Holds, hall, hrows]
              exact hw.closes hholds hcall

end Wiring.Reaches

/-- What a run of a plan comes to whose sink has milestones. A completed run has committed the
batches with rows of the stream that its source has answered with. -/
theorem Host.PlanRun.reaches {h : Host} {registry : ConnectorRegistry} {settings : JobSettings}
    {plan : Plan} {cancellation : Cancellation} {events : List JobEvent} {outcome : JobOutcome}
    {site : JobSite} {m : Milestones JobSite}
    (hrun : h.PlanRun registry settings plan cancellation events outcome)
    (hsite : h.makeSite registry plan = .ok site)
    (hw : (JobSite.wiring (siteKind site)).Reaches m) (hstart : m.unopened site) :
    m.Reasons (answers events) ∧
      (∀ e, outcome.result = .error e →
        (JobSite.wiring (siteKind site)).Explains (answers events) e) ∧
      ∀ report, outcome.result = .ok report → ∃ final stream,
        streamRead? events = some stream ∧ stream.EndsNormally ∧
        m.committed stream.nonEmptyBatches report.progress.rowsWritten report.receipt final ∧
        outcome.host = final.host.publish registry plan report.progress report.receipt ∧
        report.progress.rowsRead = Batch.totalSize stream.batches := by
  obtain ⟨final, hfailed, hcompleted⟩ := hrun.exists_final hsite
  cases hresult : outcome.result with
  | error e =>
      obtain ⟨hcourse, -⟩ := hfailed e hresult
      obtain ⟨-, hreasons⟩ := hw.course hstart hcourse
      refine ⟨hreasons, ?_, nofun⟩
      rintro _ ⟨⟩
      exact hcourse.explains rfl
  | ok report =>
      obtain ⟨hcourse, hhost, hrows, stream, hstream, hnormal, hall, hread⟩ :=
        hcompleted report hresult
      obtain ⟨hcommitted, hreasons⟩ := hw.course hstart hcourse
      refine ⟨hreasons, nofun, ?_⟩
      rintro _ ⟨⟩
      refine ⟨final, stream, hstream, hnormal, ?_, hhost, hread⟩
      rw [hrows, ← hall]
      exact hcommitted

end BatchTransfer
