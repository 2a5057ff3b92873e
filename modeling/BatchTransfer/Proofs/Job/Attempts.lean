import BatchTransfer.Proofs.Job.Retries
import BatchTransfer.Proofs.Job.States

/-!
# Which attempts to write are reported

A job that gives a batch up reports a number of attempts. `WriteCalls` is the record of the writes of
one batch: how often the sink has been called with it since it was taken out of the queue, and with
which failures it has answered. `Control.Attempts` ties that record to the count that the writer
keeps, at every moment of every run, whether the job is cancelled or not. The count leaves out
failures that may not be repeated, so the main theorem, `Host.reports_attempts`, says when the
reported number is that of the calls and what it is when it is not.
-/

namespace BatchTransfer

open JobEvent (allReceived allWriting allWritten)

/-- The batch that was taken out of the queue last has been written `calls` times since, and of these
writes those that are over have ended with the failures. -/
def WriteCalls (events : List JobEvent) (batch : Batch) (calls : Nat)
    (errors : List ConnectorError) : Prop :=
  ∃ before since, events = before ++ .received (.ok batch) :: since ∧ allReceived since = [] ∧
    allWriting since = List.replicate calls batch ∧ allWritten since = failedWrites batch errors

namespace WriteCalls

variable {events : List JobEvent} {batch : Batch} {calls : Nat} {errors : List ConnectorError}

theorem received (events : List JobEvent) (batch : Batch) :
    WriteCalls (events ++ [.received (.ok batch), .writing batch]) batch 1 [] :=
  ⟨events, [.writing batch], rfl, rfl, rfl, rfl⟩

/-- The sink is called once more. -/
theorem writing (h : WriteCalls events batch calls errors) :
    WriteCalls (events ++ [.writing batch]) batch (calls + 1) errors := by
  obtain ⟨before, since, rfl, hreceived, hwriting, hwritten⟩ := h
  have hone : allWriting [.writing batch] = [batch] := rfl
  have hnone : allWritten [.writing batch] = [] := rfl
  refine ⟨before, since ++ [.writing batch], by simp, ?_, ?_, ?_⟩
  · rw [JobEvent.allReceived_append, hreceived]
    rfl
  · rw [JobEvent.allWriting_append, hwriting, hone, List.replicate_succ']
  · rw [JobEvent.allWritten_append, hwritten, hnone, List.append_nil]

/-- The sink answers with one more failure. -/
theorem failed (h : WriteCalls events batch calls errors) (e : ConnectorError) :
    WriteCalls (events ++ [.written batch (.error e)]) batch calls (errors ++ [e]) := by
  obtain ⟨before, since, rfl, hreceived, hwriting, hwritten⟩ := h
  have hnone : allWriting [.written batch (.error e)] = [] := rfl
  have hone : allWritten [.written batch (.error e)] = [(batch, .error e)] := rfl
  refine ⟨before, since ++ [.written batch (.error e)], by simp, ?_, ?_, ?_⟩
  · rw [JobEvent.allReceived_append, hreceived]
    rfl
  · rw [JobEvent.allWriting_append, hwriting, hnone, List.append_nil]
  · rw [JobEvent.allWritten_append, hwritten, hone, failedWrites, failedWrites, List.map_append]
    rfl

/-- What concerns neither the queue nor a write adds nothing. -/
theorem append {more : List JobEvent} (h : WriteCalls events batch calls errors)
    (hreceived : allReceived more = []) (hwriting : allWriting more = [])
    (hwritten : allWritten more = []) : WriteCalls (events ++ more) batch calls errors := by
  obtain ⟨before, since, rfl, hsince, hcalls, hanswers⟩ := h
  refine ⟨before, since ++ more, by simp, ?_, ?_, ?_⟩
  · rw [JobEvent.allReceived_append, hsince, hreceived, List.append_nil]
  · rw [JobEvent.allWriting_append, hwriting, List.append_nil, hcalls]
  · rw [JobEvent.allWritten_append, hwritten, List.append_nil, hanswers]

end WriteCalls

/-- The number that a job reports when it gives a batch up, whose writes have failed with the
failures: one for each that may be repeated, and at least one. -/
def reportedAttempts (errors : List ConnectorError) : Nat :=
  max (errors.countP ConnectorError.isRetryable) 1

/-- A failed write is reported with its batch's calls behind it: all of its failures but the last may
be repeated, and they are counted. -/
def JobError.Attempts (events : List JobEvent) (e : JobError) : Prop :=
  ∀ kind attempts last, e = .sinkWrite kind attempts last → ∃ batch errors,
    WriteCalls events batch (errors.length + 1) (errors ++ [last]) ∧
      (∀ e ∈ errors, e.isRetryable = true) ∧ attempts = reportedAttempts (errors ++ [last])

/-- What the calls for the batch at hand are when the writer comes to its control. -/
def Control.Attempts {σ : Type} (events : List JobEvent) : Control σ → Prop
  | .writing batch budget _ => ∃ errors, WriteCalls events batch (errors.length + 1) errors ∧
      (∀ e ∈ errors, e.isRetryable = true) ∧ errors.length = budget.failures
  | .writeBackoff batch budget _ => ∃ errors, WriteCalls events batch errors.length errors ∧
      (∀ e ∈ errors, e.isRetryable = true) ∧ errors.length = budget.failures
  | .joining (.error e) | .closing _ (.error e) _ | .ended (.error e) => e.Attempts events
  | _ => True

namespace JobError

variable {events : List JobEvent}

/-- Other failures are reported without attempts. -/
theorem attempts_of_ne {e : JobError} (h : ∀ kind attempts last, e ≠ .sinkWrite kind attempts last) :
    e.Attempts events :=
  fun kind attempts last he => absurd he (h kind attempts last)

theorem Attempts.append {e : JobError} {more : List JobEvent} (h : e.Attempts events)
    (hreceived : allReceived more = []) (hwriting : allWriting more = [])
    (hwritten : allWritten more = []) : e.Attempts (events ++ more) := by
  intro kind attempts last he
  obtain ⟨batch, errors, hcalls, hrepeat, hattempts⟩ := h kind attempts last he
  exact ⟨batch, errors, hcalls.append hreceived hwriting hwritten, hrepeat, hattempts⟩

end JobError

/-- Failures that may all be repeated are all counted. -/
theorem countP_isRetryable {errors : List ConnectorError}
    (hrepeat : ∀ e ∈ errors, e.isRetryable = true) :
    errors.countP ConnectorError.isRetryable = errors.length :=
  List.countP_eq_length.mpr hrepeat

/-- The count that the writer keeps for a batch is the one that it reports. -/
theorem RetryBudget.attempts_eq_reported {budget : RetryBudget} {errors : List ConnectorError}
    (last : ConnectorError) (hrepeat : ∀ e ∈ errors, e.isRetryable = true)
    (hlength : errors.length = budget.failures) :
    (if last.isRetryable then budget.spend else budget).attempts =
      reportedAttempts (errors ++ [last]) := by
  have hcount := countP_isRetryable hrepeat
  cases hlast : last.isRetryable with
  | true => simp [reportedAttempts, RetryBudget.attempts, spend, hcount, hlast, hlength]
  | false => simp [reportedAttempts, RetryBudget.attempts, hcount, hlast, hlength]

namespace JobRun

variable {σ : Type} {w : Wiring σ} {c : JobSettings} {events more : List JobEvent} {s s' : JobRun σ}

/-- A move of the writer keeps the record of the batch at hand. -/
theorem attempts_writer_step (h : s.control.Attempts events) (hstep : s.WriterStep w c more s') :
    s'.control.Attempts (events ++ more) := by
  cases hstep with
  | begin | sourceOpened | sinkOpened | openRepeated | openAgain | readStarted | drained
  | acknowledged | commit => trivial
  | emptyReceived hcontrol =>
      show s.control.Attempts _
      rw [hcontrol]
      trivial
  | refuse | openGivenUp | openCancelled | readFailed | transferCancelled | failureReceived
  | writeCancelled | joinedBroken | joinedCancelled =>
      refine JobError.attempts_of_ne fun kind attempts last he => ?_
      cases he
  | @batchReceived batch =>
      exact ⟨[], .received events batch, fun e he => absurd he List.not_mem_nil, rfl⟩
  | @writeRepeated batch budget call state e hcontrol _ _ hretryable =>
      rw [hcontrol] at h
      obtain ⟨errors, hcalls, hrepeat, hlength⟩ := h
      refine ⟨errors ++ [e], ?_, ?_, by simp [RetryBudget.spend, hlength]⟩
      · rw [List.length_append, List.length_singleton]
        exact hcalls.failed e
      · simpa [or_imp, forall_and, hretryable] using hrepeat
  | @writeGivenUp batch budget call state e attempts hcontrol _ _ _ hattempts =>
      rw [hcontrol] at h
      obtain ⟨errors, hcalls, hrepeat, hlength⟩ := h
      intro kind attempts' last hlast
      cases hlast
      exact ⟨batch, errors, hcalls.failed e, hrepeat,
        hattempts.trans (RetryBudget.attempts_eq_reported e hrepeat hlength)⟩
  | writeAgain hcontrol =>
      rw [hcontrol] at h
      obtain ⟨errors, hcalls, hrepeat, hlength⟩ := h
      exact ⟨errors, hcalls.writing, hrepeat, hlength⟩
  | joinedAfterFailure hcontrol =>
      rw [hcontrol] at h
      exact JobError.Attempts.append h rfl rfl rfl
  | @committed call state answer =>
      cases answer with
      | ok => trivial
      | error =>
          refine JobError.attempts_of_ne fun kind attempts last he => ?_
          cases he
  | @sinkClosed outcome _ _ _ hcontrol | @sourceClosed outcome _ _ _ hcontrol =>
      rw [hcontrol] at h
      cases outcome with
      | ok => trivial
      | error => exact JobError.Attempts.append h rfl rfl rfl

theorem attempts_step (h : s.control.Attempts events) (hstep : s.Step w c more s') :
    s'.control.Attempts (events ++ more) := by
  cases hstep with
  | @writer t seen _ hmove =>
      have hseeing : (s.seeing seen).control.Attempts events := h
      have hkept := attempts_writer_step hseeing (.of_move hmove)
      exact hkept
  | reader _ hmove =>
      rw [List.append_nil]
      cases ReaderStep.of_move hmove <;> exact h
  | cancel | elapse =>
      rw [List.append_nil]
      exact h

/-- The record of the batch at hand is right at every moment of every run. -/
theorem attempts_of_trace {state : σ} {before : Bool} {cancelAt : Option Nat}
    (hrun : Trace w c (.start state before cancelAt) events s) : s.control.Attempts events := by
  induction hrun with
  | refl => trivial
  | step _ hstep ih => exact attempts_step ih hstep

end JobRun

/-- What a reported number of attempts tells about the calls for the batch that was given up after the
failure. It is the number of calls where the last failure may be repeated or there was no other; else
it is one less, as the last failure is not counted. -/
def AttemptsTell (events : List JobEvent) (attempts : Nat) (last : ConnectorError) : Prop :=
  ∃ batch errors, WriteCalls events batch (errors.length + 1) (errors ++ [last]) ∧
    (attempts = errors.length + 1 ↔ last.isRetryable = true ∨ errors = []) ∧
    (last.isRetryable = false → errors ≠ [] → attempts = errors.length)

theorem JobError.Attempts.tell {events : List JobEvent} {kind : String} {attempts : Nat}
    {last : ConnectorError} (h : (JobError.sinkWrite kind attempts last).Attempts events) :
    AttemptsTell events attempts last := by
  obtain ⟨batch, errors, hcalls, hrepeat, hattempts⟩ := h kind attempts last rfl
  have hcount := countP_isRetryable hrepeat
  rw [reportedAttempts, List.countP_append, hcount] at hattempts
  cases hlast : last.isRetryable with
  | true =>
      have hone : [last].countP ConnectorError.isRetryable = 1 := by simp [hlast]
      refine ⟨batch, errors, hcalls, ⟨fun _ => .inl hlast, fun _ => by omega⟩, by simp [hlast]⟩
  | false =>
      have hnone : [last].countP ConnectorError.isRetryable = 0 := by simp [hlast]
      have hempty : errors = [] ↔ errors.length = 0 := List.length_eq_zero_iff.symm
      refine ⟨batch, errors, hcalls, ?_, fun _ hother => ?_⟩
      · rw [hempty, hlast]
        simp only [Bool.false_eq_true, false_or]
        omega
      · have hsome : errors.length ≠ 0 := fun hzero => hother (hempty.mpr hzero)
        omega

namespace Host

/-- Whatever the connectors of a job answer and whenever it is cancelled, a job that fails to write
has called the sink with the batch that it gives up once more than it has been answered with failures
before the last one. The attempts that it reports are these calls just if the last failure is one that
may be repeated, or the first; else they are one less. So it is for any connectors, and for those of a
plan, in every one of its runs. -/
theorem reports_attempts (h : Host) (registry : ConnectorRegistry) (settings : JobSettings)
    (plan : Plan) (cancellation : Cancellation) :
    (∀ {σ : Type} (w : Wiring σ) (state : σ) (before : Bool) (cancelAt : Option Nat)
      (events : List JobEvent) (s : JobRun σ) (kind : String) (attempts : Nat)
      (last : ConnectorError),
      JobRun.Trace w settings (.start state before cancelAt) events s →
      s.outcome? = some (.error (.sinkWrite kind attempts last)) →
        AttemptsTell events attempts last) ∧
      (∃ events, h.PlanRun registry settings plan cancellation events
        (h.runPlan registry settings plan cancellation)) ∧
      ∀ events outcome kind attempts last,
        h.PlanRun registry settings plan cancellation events outcome →
        outcome.result = .error (.sinkWrite kind attempts last) →
          AttemptsTell events attempts last := by
  have htrace {σ : Type} {w : Wiring σ} {state : σ} {before : Bool} {cancelAt : Option Nat}
      {events : List JobEvent} {s : JobRun σ} {kind : String} {attempts : Nat}
      {last : ConnectorError} (hrun : JobRun.Trace w settings (.start state before cancelAt) events s)
      (houtcome : s.outcome? = some (.error (.sinkWrite kind attempts last))) :
      AttemptsTell events attempts last := by
    have hattempts := JobRun.attempts_of_trace hrun
    rw [JobRun.outcome?_eq_some_iff.mp houtcome] at hattempts
    exact JobError.Attempts.tell hattempts
  refine ⟨?_, h.planRun_runPlan registry settings plan cancellation, ?_⟩
  · intro σ w state before cancelAt events s kind attempts last hrun houtcome
    exact htrace hrun houtcome
  intro events outcome kind attempts last hrun hresult
  cases hrun with
  | @unresolved e hsite =>
      -- A job without connectors fails while it resolves them.
      have hearly := arisesIn_of_makeSite hsite
      cases hresult
      cases hearly
  | resolved hsite hrun hended =>
      obtain ⟨answer, hcontrol⟩ := JobRun.hasEnded_iff.mp hended
      have houtcome := JobRun.outcome?_eq_some_iff.mpr hcontrol
      cases answer with
      | ok receipt =>
          rw [concludeJob_ok houtcome] at hresult
          cases hresult
      | error e =>
          rw [concludeJob_error houtcome] at hresult
          cases hresult
          exact htrace hrun houtcome

/-- A host with a script of one batch. The sink is busy at the first write and refuses the second. -/
def refusingHost : Host :=
  { new [] with
    stage :=
      { script :=
          { items := [(0, .rows [.ofFields []])]
            writes := [some ⟨.transient, "busy"⟩, some ⟨.schema, "no such column"⟩] } } }

/-- The connectors of the busy plan, with that host. -/
def refusingSite : JobSite := ⟨.scripted .all, .scripted, { refusingHost with nextRun := ⟨1⟩ }⟩

/-- The job of that host calls the sink twice with its batch and reports one attempt. -/
theorem exists_refused_run :
    ∃ events outcome,
      refusingHost.PlanRun busyRegistry JobRun.oneBatchSettings busyPlan {} events outcome ∧
        outcome.result = .error (.sinkWrite "script" 1 ⟨.schema, "no such column"⟩) ∧
        WriteCalls events JobRun.oneRow 2 [⟨.transient, "busy"⟩, ⟨.schema, "no such column"⟩] := by
  have hsite : refusingHost.makeSite busyRegistry busyPlan = .ok refusingSite := rfl
  have hread := ((((JobRun.Trace.refl (w := JobSite.wiring (siteKind refusingSite))
    (c := JobRun.oneBatchSettings) (.start refusingSite false none)).step
      (.writer (.inl rfl) rfl)).step (.writer (.inl rfl) rfl)).step (.writer (.inl rfl) rfl)).step
      (.writer (.inl rfl) rfl)
  have hwriting := ((hread.step (.reader id rfl)).step (.reader id rfl)).step
    (.writer (.inl rfl) rfl)
  have hrepeated := (hwriting.step (.writer (.inl rfl) rfl)).step (.writer (.inl rfl) rfl)
  have hgivenUp := (hrepeated.step (.writer (.inl rfl) rfl)).step (.reader id rfl)
  have hclosed := ((hgivenUp.step (.writer (.inl rfl) rfl)).step (.writer (.inl rfl) rfl)).step
    (.writer (.inl rfl) rfl)
  have hrun : refusingHost.PlanRun busyRegistry JobRun.oneBatchSettings busyPlan {} _ _ :=
    .resolved hsite hclosed rfl
  have hquiet :
      allReceived [.closing .sink, .closed .sink, .closing .source, .closed .source] = [] := rfl
  have hcalls := (((WriteCalls.received [JobEvent.opening .source, .opened .source (.ok ()),
    .opening .sink, .opened .sink (.ok ()), .reading,
    .read (.ok (.listed [⟨0, .batch JobRun.oneRow⟩]))] JobRun.oneRow).failed
      ⟨.transient, "busy"⟩).writing.failed ⟨.schema, "no such column"⟩).append hquiet rfl rfl
  exact ⟨_, _, hrun, rfl, hcalls⟩

/-- The sink that refuses the schema has been called with the batch once more than the job reports. -/
theorem reports_attempts_refused :
    ∃ events outcome,
      refusingHost.PlanRun busyRegistry JobRun.oneBatchSettings busyPlan {} events outcome ∧
        outcome.result = .error (.sinkWrite "script" 1 ⟨.schema, "no such column"⟩) ∧
        AttemptsTell events 1 ⟨.schema, "no such column"⟩ := by
  obtain ⟨-, -, hreports⟩ := reports_attempts refusingHost busyRegistry JobRun.oneBatchSettings
    busyPlan {}
  obtain ⟨events, outcome, hrun, hresult, -⟩ := exists_refused_run
  exact ⟨events, outcome, hrun, hresult, hreports events outcome _ _ _ hrun hresult⟩

/-- The attempts that a job reports are not always the calls that it has made for the batch. -/
theorem not_reports_attempts :
    ¬ ∀ (h : Host) (registry : ConnectorRegistry) (settings : JobSettings) (plan : Plan)
        (cancellation : Cancellation) (events : List JobEvent) (outcome : JobOutcome) (kind : String)
        (attempts : Nat) (last : ConnectorError),
        h.PlanRun registry settings plan cancellation events outcome →
        outcome.result = .error (.sinkWrite kind attempts last) →
        ∀ batch calls errors, WriteCalls events batch calls (errors ++ [last]) →
          attempts = calls := by
  intro hclaim
  obtain ⟨events, outcome, hrun, hresult, hcalls⟩ := exists_refused_run
  have hsame : 1 = 2 := hclaim _ _ _ _ _ _ _ _ _ _ hrun hresult _ _ [⟨.transient, "busy"⟩] hcalls
  cases hsame

end Host

end BatchTransfer
