import BatchTransfer.Proofs.Job.Milestones
import BatchTransfer.Proofs.Job.States

/-!
# How jobs end

A job that ends has opened its sink or has not, and where it has, the sink has acknowledged some
batches (`JobEvent.batchesTaken?`). What is left of the sink of a failed job follows from what each
call leaves of it (`Wiring.Abandons`, `Host.PlanRun.abandons`). A completed job has committed its
sink when that had acknowledged every batch (`Wiring.Reaches.exists_commit`), and the batches and
bytes that a job reports are those that its sink has acknowledged (`Host.PlanRun.counts`).
-/

namespace BatchTransfer

open JobEvent (allAcknowledged rowsAcknowledged streamRead? answers)

/-! ### What sinks have answered -/

namespace JobEvent

/-- Whether an event is the successful opening of the sink. -/
def opensSink : JobEvent → Bool
  | opened .sink (.ok _) => true
  | _ => false

/-- Whether the sink has been opened. -/
def sinkOpened (events : List JobEvent) : Bool := events.any opensSink

/-- What the sink acknowledges. -/
def acknowledgement? : JobEvent → Option Acknowledgement
  | written _ (.ok ack) => some ack
  | _ => none

/-- What the sink has acknowledged, in order. -/
def allAcknowledgements (events : List JobEvent) : List Acknowledgement :=
  events.filterMap acknowledgement?

/-- The batches that the sink has acknowledged, if it has been opened. -/
def batchesTaken? (events : List JobEvent) : Option (List Batch) :=
  if sinkOpened events then some (allAcknowledged events) else none

variable (events more : List JobEvent)

@[simp]
theorem sinkOpened_append :
    sinkOpened (events ++ more) = (sinkOpened events || sinkOpened more) := by
  simp [sinkOpened]

@[simp]
theorem allAcknowledgements_append :
    allAcknowledgements (events ++ more) =
      allAcknowledgements events ++ allAcknowledgements more := by
  simp [allAcknowledgements]

@[simp]
theorem sinkOpened_answers : sinkOpened (answers events) = sinkOpened events := by
  rw [sinkOpened, answers, List.any_filter]
  congr 1
  funext e
  cases e <;> rfl

@[simp]
theorem allAcknowledgements_answers :
    allAcknowledgements (answers events) = allAcknowledgements events := by
  rw [allAcknowledgements, allAcknowledgements, answers, List.filterMap_filter]
  congr 1
  funext e
  cases e <;> rfl

@[simp]
theorem batchesTaken?_answers : batchesTaken? (answers events) = batchesTaken? events := by
  rw [batchesTaken?, batchesTaken?, sinkOpened_answers, allAcknowledged_answers]

variable {events}

theorem sinkOpened_eq_true_iff : sinkOpened events = true ↔ .opened .sink (.ok ()) ∈ events := by
  rw [sinkOpened, List.any_eq_true]
  constructor
  · rintro ⟨e, he, hopens⟩
    unfold opensSink at hopens
    split at hopens
    · exact he
    · cases hopens
  · exact fun h => ⟨_, h, rfl⟩

theorem batchesTaken?_eq_some_iff {batches : List Batch} : batchesTaken? events = some batches ↔
    .opened .sink (.ok ()) ∈ events ∧ allAcknowledged events = batches := by
  rw [batchesTaken?, ← sinkOpened_eq_true_iff]
  split <;> simp_all

/-- An answer that neither opens the sink nor acknowledges a batch leaves what the sink has taken as
it is. -/
theorem batchesTaken?_concat {e : JobEvent} (hopens : e.opensSink = false)
    (hack : e.acknowledged? = none) : batchesTaken? (events ++ [e]) = batchesTaken? events := by
  obtain ⟨hall, -⟩ := acknowledged_concat events hack
  have hopened : sinkOpened [e] = false := by simp [sinkOpened, hopens]
  rw [batchesTaken?, batchesTaken?, sinkOpened_append, hopened, Bool.or_false, hall]

end JobEvent

open JobEvent (allAcknowledgements batchesTaken?)

variable {σ : Type} {w : Wiring σ} {m : Milestones σ} {s t start : σ} {phase : Phase}
  {events : List JobEvent}

/-! ### Courses up to their ends -/

/-- Whether the sink is open in a phase of a job, where the phase tells. -/
def Phase.sinkIsOpen? : Phase → Option Bool
  | .opening _ => some false
  | .reading | .transferring _ | .ending (.ok _) => some true
  | .ending (.error _) => none

namespace Wiring.Course

/-- The sink of a job has been opened when its source is read, and not before. -/
theorem sinkOpened_eq (h : w.Course start phase events s) {isOpen : Bool}
    (hphase : phase.sinkIsOpen? = some isOpen) : JobEvent.sinkOpened events = isOpen := by
  induction h with
  | start =>
      cases hphase
      rfl
  | @refused role _ _ _ _ _ _ _ ih =>
      cases hphase
      rw [JobEvent.sinkOpened_append, ih rfl]
      cases role <;> rfl
  | sourceOpened _ _ ih =>
      cases hphase
      rw [JobEvent.sinkOpened_append, ih rfl]
      rfl
  | sinkOpened =>
      cases hphase
      rw [JobEvent.sinkOpened_append]
      exact Bool.or_true _
  | read _ _ ih | written _ _ _ ih =>
      cases hphase
      rw [JobEvent.sinkOpened_append, ih rfl]
      rfl
  | @committed _ _ _ _ _ answer _ _ _ _ ih =>
      cases answer with
      | ok receipt =>
          cases hphase
          rw [JobEvent.sinkOpened_append, ih rfl]
          rfl
      | error e => cases hphase
  | closed _ _ ih =>
      rw [JobEvent.sinkOpened_append, ih hphase]
      exact Bool.or_false _
  | unopened | unread | unwritten | broken | cancelled => cases hphase

end Wiring.Course

/-! ### Jobs that are completed -/

/-- Whether a job commits its sink in a state, after the answers that it has been given before. -/
def Wiring.CommitsAt (w : Wiring σ) (start : σ) (events : List JobEvent) (receipt : CommitReceipt)
    (s : σ) : Prop :=
  ∃ stream first rest time after, events = first ++ .committed (.ok receipt) :: rest ∧
    w.Course start (.transferring stream) first s ∧ (w.commitCall time s).Ends after (.ok receipt)

/-- A completed job has committed its sink when that had acknowledged all that it ever does. -/
theorem Wiring.Reaches.exists_commit (hw : w.Reaches m) (hstart : m.unopened start)
    (h : w.Course start phase events s) {receipt : CommitReceipt}
    (hphase : phase = .ending (.ok receipt)) : ∃ before,
      w.CommitsAt start events receipt before ∧
      m.taking (allAcknowledged events) (rowsAcknowledged events) before := by
  induction h with
  | @committed stream first before time after answer h _ _ hcall =>
      cases answer with
      | ok receipt' =>
          cases hphase
          obtain ⟨hholds, -⟩ := hw.course hstart h
          obtain ⟨hall, hrows⟩ := JobEvent.acknowledged_concat first
            (e := .committed (.ok receipt)) rfl
          rw [hall, hrows]
          exact ⟨before, ⟨stream, first, [], time, after, rfl, h, hcall⟩, hholds⟩
      | error e => cases hphase
  | @closed _ role events _ _ _ _ _ _ ih =>
      -- A closing comes behind the commit and acknowledges nothing.
      obtain ⟨before, ⟨stream, first, rest, time, after, rfl, hcommit⟩, htaking⟩ := ih hphase
      obtain ⟨hall, hrows⟩ := JobEvent.acknowledged_concat
        (first ++ .committed (.ok receipt) :: rest) (e := .closed role) rfl
      rw [hall, hrows]
      refine ⟨before, ⟨stream, first, rest ++ [.closed role], time, after, ?_, hcommit⟩, htaking⟩
      rw [List.append_assoc, List.cons_append]
  | _ => cases hphase

/-! ### Jobs that fail -/

/-- What a job that fails leaves of a sink with milestones: `left none` if the sink has not been
opened, and otherwise `left (some batches)` with the batches that it has acknowledged. -/
structure Wiring.Abandons (w : Wiring σ) (m : Milestones σ)
    (left : Option (List Batch) → σ → Prop) : Prop where
  unopened : ∀ {s}, m.unopened s → left none s
  taking : ∀ {batches rows s}, m.taking batches rows s → left (some batches) s
  uncommitted : ∀ {time batches rows s t e}, m.taking batches rows s →
    (w.commitCall time s).Ends t (.error e) → left (some batches) t
  closes : ∀ {role time taken s t answer}, left taken s →
    (w.closeCall role time s).Ends t answer → left taken t

namespace Wiring.Reaches

variable {left : Option (List Batch) → σ → Prop}

/-- As long as a job goes on, its sink is as a job leaves it that fails now. -/
theorem left_of_course (hw : w.Reaches m) (hleft : w.Abandons m left) (hstart : m.unopened start)
    (h : w.Course start phase events s) (hphase : ∀ outcome, phase ≠ .ending outcome) :
    left (batchesTaken? events) s := by
  obtain ⟨hholds, -⟩ := hw.course hstart h
  cases phase with
  | opening role =>
      rw [batchesTaken?, h.sinkOpened_eq rfl, if_neg Bool.false_ne_true]
      exact hleft.unopened hholds.1
  | reading =>
      rw [batchesTaken?, h.sinkOpened_eq rfl, if_pos rfl]
      exact hleft.taking hholds
  | transferring stream =>
      rw [batchesTaken?, h.sinkOpened_eq rfl, if_pos rfl]
      exact hleft.taking hholds
  | ending outcome => exact absurd rfl (hphase outcome)

/-- What a failed job leaves of its sink. -/
theorem abandoned (hw : w.Reaches m) (hleft : w.Abandons m left) (hstart : m.unopened start)
    (h : w.Course start phase events s) {e : JobError} (hphase : phase = .ending (.error e)) :
    left (batchesTaken? events) s := by
  induction h with
  | unopened h hcall => exact hw.left_of_course hleft hstart (h.refused hcall) nofun
  | @unread events s time t e h hcall =>
      obtain ⟨hholds, -⟩ := hw.course hstart h
      have htaking := (hw.reads hcall).taking _ _ hholds
      rw [JobEvent.batchesTaken?_concat rfl rfl, batchesTaken?, h.sinkOpened_eq rfl, if_pos rfl]
      exact hleft.taking htaking
  | unwritten h hbatch hcall =>
      exact hw.left_of_course hleft hstart (h.written hbatch hcall) nofun
  | broken h => exact hw.left_of_course hleft hstart h nofun
  | cancelled h hopen => exact hw.left_of_course hleft hstart h hopen
  | @committed stream events s time t answer h _ _ hcall =>
      cases answer with
      | ok receipt => cases hphase
      | error e =>
          obtain ⟨hholds, -⟩ := hw.course hstart h
          rw [JobEvent.batchesTaken?_concat rfl rfl, batchesTaken?, h.sinkOpened_eq rfl, if_pos rfl]
          exact hleft.uncommitted hholds hcall
  | closed _ hcall ih =>
      rw [JobEvent.batchesTaken?_concat rfl rfl]
      exact hleft.closes (ih hphase) hcall
  | _ => cases hphase

/-- What each batch is acknowledged with holds of all acknowledgements of a job, in order. -/
theorem acknowledges (hw : w.Reaches m) {R : Batch → Acknowledgement → Prop}
    (hwrites : ∀ {time batch batches rows s t ack}, m.taking batches rows s →
      batch.isEmpty = false → (w.writeCall time batch s).Ends t (.ok ack) → R batch ack)
    (hstart : m.unopened start) (h : w.Course start phase events s) :
    List.Forall₂ R (allAcknowledged events) (allAcknowledgements events) := by
  have hquiet {events : List JobEvent} {e : JobEvent} (hack : e.acknowledged? = none)
      (hack' : e.acknowledgement? = none)
      (ih : List.Forall₂ R (allAcknowledged events) (allAcknowledgements events)) :
      List.Forall₂ R (allAcknowledged (events ++ [e])) (allAcknowledgements (events ++ [e])) := by
    simpa [allAcknowledged, allAcknowledgements, hack, hack'] using ih
  induction h with
  | start => exact .nil
  | @written stream events s time batch t answer h hbatch hcall ih =>
      cases answer with
      | error e => exact hquiet rfl rfl ih
      | ok ack =>
          obtain ⟨hholds, -⟩ := hw.course hstart h
          have hrows : batch.isEmpty = false := by simpa using (List.mem_filter.mp hbatch).2
          rw [JobEvent.allAcknowledged_append, JobEvent.allAcknowledgements_append]
          exact List.rel_append ih (.cons (hwrites hholds hrows hcall) .nil)
  | broken _ _ ih | cancelled _ _ ih => exact ih
  | refused _ _ ih | unopened _ _ ih | sourceOpened _ _ ih | sinkOpened _ _ ih | read _ _ ih
  | unread _ _ ih | unwritten _ _ _ ih | committed _ _ _ _ ih | closed _ _ ih =>
      exact hquiet rfl rfl ih

end Wiring.Reaches

/-! ### What is counted of the writes -/

namespace JobRun

variable {c : JobSettings} {more : List JobEvent} {s s' : JobRun σ} {state : σ} {before : Bool}
  {cancelAt : Option Nat}

/-- A job counts a batch for each acknowledgement, and the bytes in it. -/
structure CountsWrites (events : List JobEvent) (s : JobRun σ) : Prop where
  batches : s.progress.batches = (allAcknowledged events).length
  bytes : s.progress.bytesWritten = ((allAcknowledgements events).map (·.bytes)).sum

namespace CountsWrites

/-- A move in which nothing is acknowledged. -/
theorem quiet (h : CountsWrites events s) (hbatches : allAcknowledged more = [])
    (hacks : allAcknowledgements more = []) (hsame : s'.progress.batches = s.progress.batches)
    (hsame' : s'.progress.bytesWritten = s.progress.bytesWritten) :
    CountsWrites (events ++ more) s' where
  batches := by simpa [hbatches, hsame] using h.batches
  bytes := by simpa [hacks, hsame'] using h.bytes

theorem writer_step (h : CountsWrites events s) (hstep : s.WriterStep w c more s') :
    CountsWrites (events ++ more) s' := by
  cases hstep with
  | @acknowledged batch budget call state ack =>
      have hbatches : allAcknowledged [.written batch (.ok ack)] = [batch] := rfl
      have hacks : allAcknowledgements [.written batch (.ok ack)] = [ack] := rfl
      refine ⟨?_, ?_⟩
      · simp [hbatches, JobProgress.countWritten, h.batches]
      · simp [hacks, JobProgress.countWritten, h.bytes]
  | _ => exact h.quiet rfl rfl rfl rfl

/-- The counts of the writes are right at every moment of every run. -/
theorem of_trace (hrun : Trace w c (.start state before cancelAt) events s) :
    CountsWrites events s := by
  induction hrun with
  | refl => exact ⟨rfl, rfl⟩
  | @step s u events more _ hstep ih =>
      cases hstep with
      | @writer s' seen _ hmove =>
          have hseeing : CountsWrites events (s.seeing seen) := ⟨ih.batches, ih.bytes⟩
          have hkept := hseeing.writer_step (.of_move hmove)
          exact ⟨hkept.batches, hkept.bytes⟩
      | reader _ hmove =>
          rw [List.append_nil]
          cases ReaderStep.of_move hmove <;> exact ⟨ih.batches, ih.bytes⟩
      | cancel | elapse =>
          rw [List.append_nil]
          exact ⟨ih.batches, ih.bytes⟩

end CountsWrites

end JobRun

/-! ### Runs of plans -/

namespace Host

variable {h : Host} {registry : ConnectorRegistry} {settings : JobSettings} {plan : Plan}
  {cancellation : Cancellation} {outcome : JobOutcome} {site : JobSite} {m : Milestones JobSite}

/-- What a failed run of a plan leaves of its sink. -/
theorem PlanRun.abandons {left : Option (List Batch) → JobSite → Prop}
    (hrun : h.PlanRun registry settings plan cancellation events outcome)
    (hsite : h.makeSite registry plan = .ok site)
    (hw : (JobSite.wiring (siteKind site)).Reaches m)
    (hleft : (JobSite.wiring (siteKind site)).Abandons m left) (hstart : m.unopened site)
    {e : JobError} (hresult : outcome.result = .error e) :
    ∃ final : JobSite, left (batchesTaken? events) final ∧ outcome.host = final.host := by
  obtain ⟨final, hfailed, -⟩ := hrun.exists_final hsite
  obtain ⟨hcourse, hhost⟩ := hfailed e hresult
  refine ⟨final, ?_, hhost⟩
  rw [← JobEvent.batchesTaken?_answers]
  exact hw.abandoned hleft hstart hcourse rfl

/-- A completed run of a plan has opened its sink, which has taken the whole stream. -/
theorem PlanRun.batchesTaken?_of_ok
    (hrun : h.PlanRun registry settings plan cancellation events outcome) {report : JobReport}
    (hresult : outcome.result = .ok report) : ∃ stream, streamRead? events = some stream ∧
      stream.EndsNormally ∧ batchesTaken? events = some stream.nonEmptyBatches := by
  obtain ⟨site, hsite⟩ := hrun.exists_site hresult
  obtain ⟨final, -, hcompleted⟩ := hrun.exists_final hsite
  obtain ⟨hcourse, -, -, stream, hread, hnormal, hall, -⟩ := hcompleted report hresult
  refine ⟨stream, hread, hnormal, ?_⟩
  rw [← JobEvent.batchesTaken?_answers, batchesTaken?, hcourse.sinkOpened_eq rfl, if_pos rfl, hall]

/-- The batches and bytes that a run of a plan has counted as written. -/
theorem PlanRun.counts_writes
    (hrun : h.PlanRun registry settings plan cancellation events outcome) :
    outcome.progress.batches = (allAcknowledged events).length ∧
      outcome.progress.bytesWritten = ((allAcknowledgements events).map (·.bytes)).sum := by
  cases hrun with
  | unresolved => exact ⟨rfl, rfl⟩
  | @resolved site _ s hsite hrun hended =>
      have hcounts := JobRun.CountsWrites.of_trace hrun
      obtain ⟨answer, hcontrol⟩ := JobRun.hasEnded_iff.mp hended
      have houtcome := JobRun.outcome?_eq_some_iff.mpr hcontrol
      cases answer with
      | ok receipt =>
          rw [concludeJob_ok houtcome]
          exact ⟨hcounts.batches, hcounts.bytes⟩
      | error e =>
          rw [concludeJob_error houtcome]
          exact ⟨hcounts.batches, hcounts.bytes⟩

/-- What a completed run of a plan has counted. -/
theorem PlanRun.counts (hrun : h.PlanRun registry settings plan cancellation events outcome)
    {report : JobReport} (hresult : outcome.result = .ok report) {stream : Stream}
    (hread : streamRead? events = some stream) :
    allAcknowledged events = stream.nonEmptyBatches ∧
      report.progress.rowsRead = Batch.totalSize stream.batches ∧
      report.progress.batches = stream.nonEmptyBatches.length ∧
      report.progress.bytesWritten = ((allAcknowledgements events).map (·.bytes)).sum := by
  obtain ⟨site, hsite⟩ := hrun.exists_site hresult
  obtain ⟨final, -, hcompleted⟩ := hrun.exists_final hsite
  obtain ⟨-, -, -, stream', hread', -, hall, hrowsRead⟩ := hcompleted report hresult
  cases hread.symm.trans hread'
  rw [JobEvent.allAcknowledged_answers] at hall
  obtain ⟨hreport, -⟩ := hrun.history
  obtain ⟨-, -, hprogress⟩ := hreport report hresult
  obtain ⟨hbatches, hbytes⟩ := hrun.counts_writes
  rw [← hprogress] at hbatches hbytes
  exact ⟨hall, hrowsRead, hall ▸ hbatches, hbytes⟩

/-- A completed run of a plan whose sink has milestones has committed the sink when that had taken
the whole stream, with as many rows as the job reports. -/
theorem PlanRun.exists_commit (hrun : h.PlanRun registry settings plan cancellation events outcome)
    (hsite : h.makeSite registry plan = .ok site)
    (hw : (JobSite.wiring (siteKind site)).Reaches m) (hstart : m.unopened site)
    {report : JobReport} (hresult : outcome.result = .ok report) : ∃ stream before,
      streamRead? events = some stream ∧
      (JobSite.wiring (siteKind site)).CommitsAt site (answers events) report.receipt before ∧
      m.taking stream.nonEmptyBatches report.progress.rowsWritten before := by
  obtain ⟨final, -, hcompleted⟩ := hrun.exists_final hsite
  obtain ⟨hcourse, -, hrows, stream, hread, -, hall, -⟩ := hcompleted report hresult
  obtain ⟨before, hcommits, htaking⟩ := hw.exists_commit hstart hcourse rfl
  rw [hall, ← hrows] at htaking
  exact ⟨stream, before, hread, hcommits, htaking⟩

/-- What each batch is acknowledged with holds of all acknowledgements of a run, in order. -/
theorem PlanRun.acknowledges (hrun : h.PlanRun registry settings plan cancellation events outcome)
    (hsite : h.makeSite registry plan = .ok site)
    (hw : (JobSite.wiring (siteKind site)).Reaches m) (hstart : m.unopened site)
    {R : Batch → Acknowledgement → Prop}
    (hwrites : ∀ {time batch batches rows s t ack}, m.taking batches rows s →
      batch.isEmpty = false →
      ((JobSite.wiring (siteKind site)).writeCall time batch s).Ends t (.ok ack) → R batch ack)
    {report : JobReport} (hresult : outcome.result = .ok report) :
    List.Forall₂ R (allAcknowledged events) (allAcknowledgements events) := by
  obtain ⟨final, -, hcompleted⟩ := hrun.exists_final hsite
  obtain ⟨hcourse, -⟩ := hcompleted report hresult
  have hall := hw.acknowledges hwrites hstart hcourse
  rwa [JobEvent.allAcknowledged_answers, JobEvent.allAcknowledgements_answers] at hall

/-- Whatever comes of a run of a plan, its sink has acknowledged the first of the batches with rows
of the stream, in order. -/
theorem PlanRun.acknowledged_prefix
    (hrun : h.PlanRun registry settings plan cancellation events outcome) :
    allAcknowledged events <+: (streamRead? events).elim [] Stream.nonEmptyBatches := by
  cases hrun with
  | unresolved => exact List.prefix_rfl
  | resolved hsite hrun => exact (Delivery.of_trace hrun).acknowledged_prefix_stream

end Host

end BatchTransfer
