import BatchTransfer.Proofs.Job.Lifecycle
import BatchTransfer.Proofs.Job.Publication

/-!
# The states that a job records

A job passes the states in one order and leaves it only to fail. `JobRun.Recorded` ties the record to
what the writer is doing, at every moment of every run; so at the end the kind of a failure tells in
which state the job has failed (`JobError.arisesIn`), and the main theorem, `Host.records_states`,
says so of every run of a plan.
-/

namespace BatchTransfer

namespace JobState

/-- The states on the straight way to a state, with that state. -/
def way (s : JobState) : List JobState := all.takeWhile (· != s) ++ [s]

/-- What the record of a job that has ended looks like: it begins with the planned job, each state
may follow the one before it, and no state but the last one is final. -/
structure IsRecord (states : List JobState) : Prop where
  begins : states.head? = some .planned
  follows : states.IsChain fun s t => s.mayPrecede t = true
  ends : ∃ before last, states = before ++ [last] ∧ last.isFinal = true ∧
    ∀ s ∈ before, s.isFinal = false

theorem isRecord_completed : IsRecord (way .completed) where
  begins := rfl
  follows := by decide
  ends := ⟨way .committing, .completed, rfl, rfl, by decide⟩

/-- A job may fail in each state that is not final. -/
theorem isRecord_failed {s : JobState} (h : s.isFinal = false) : IsRecord (s.way ++ [.failed]) := by
  cases s with
  | completed | failed => cases h
  | _ => exact ⟨rfl, by decide, _, .failed, rfl, rfl, by decide⟩

end JobState

/-- Whether a job may fail in a state with the failure. -/
def JobError.arisesIn : JobError → JobState → Bool
  | unknownKind .., .resolving => true
  | options _, .resolving => true
  | connection .., .resolving => true
  | sourceRead .., .transferring => true
  | sinkWrite .., .transferring => true
  | sinkCommit .., .committing => true
  | cancelled, .resolving => true
  | cancelled, .transferring => true
  | _, _ => false

/-- No failure arises in a state that is final. -/
theorem JobError.isFinal_of_arisesIn {e : JobError} {s : JobState} (h : e.arisesIn s = true) :
    s.isFinal = false := by
  cases s with
  | completed | failed => cases e <;> cases h
  | _ => rfl

/-- Whether the writer may be where it is in a state of the job. A failure on its way to the end has
arisen in the state. -/
def Control.MatchesState {σ : Type} (control : Control σ) (state : JobState) : Prop :=
  match control with
  | .begin | .opening .. | .openBackoff .. => state = .resolving
  | .reading _ | .receiving | .writing .. | .writeBackoff .. => state = .transferring
  | .joining outcome =>
      state = .transferring ∧ ∀ e, outcome = .error e → e.arisesIn .transferring = true
  | .committing _ => state = .committing
  | .closing _ outcome _ | .ended outcome =>
      match outcome with
      | .ok _ => state = .committing
      | .error e => e.arisesIn state = true

namespace JobRun

variable {σ : Type} {w : Wiring σ} {c : JobSettings} {events : List JobEvent} {s s' : JobRun σ}

/-- What holds of the record of a job at every moment before it is over: the states are those on the
straight way to the present one, and the writer does what belongs to it. -/
structure Recorded (s : JobRun σ) : Prop where
  history : s.progress.history = s.progress.state.way
  control : s.control.MatchesState s.progress.state

namespace Recorded

theorem start (state : σ) (before : Bool) (cancelAt : Option Nat) :
    Recorded (.start state before cancelAt) :=
  ⟨rfl, rfl⟩

/-- A move that enters no state. -/
theorem quiet (h : Recorded s) (hhistory : s'.progress.history = s.progress.history)
    (hstate : s'.progress.state = s.progress.state)
    (hcontrol : s'.control.MatchesState s.progress.state) : Recorded s' where
  history := by rw [hhistory, hstate, h.history]
  control := by rw [hstate]; exact hcontrol

/-- A move that enters a state, to which the way from the present one leads. -/
theorem enter {state : JobState} (h : Recorded s)
    (hprogress : s'.progress = s.progress.enter state)
    (hway : s.progress.state.way ++ [state] = state.way)
    (hcontrol : s'.control.MatchesState state) : Recorded s' where
  history := by
    rw [hprogress]
    show s.progress.history ++ [state] = state.way
    rw [h.history, hway]
  control := by rw [hprogress]; exact hcontrol

theorem writer_step (h : Recorded s) (hstep : s.WriterStep w c events s') : Recorded s' := by
  have hmatch := h.control
  cases hstep with
  | begin hcontrol | sourceOpened hcontrol | openRepeated hcontrol | openAgain hcontrol
  | readStarted hcontrol | batchReceived hcontrol | acknowledged hcontrol
  | writeRepeated hcontrol | writeAgain hcontrol =>
      -- The job goes on in the state in which it is.
      rw [hcontrol] at hmatch
      exact h.quiet rfl rfl hmatch
  | emptyReceived => exact h.quiet rfl rfl hmatch
  | sinkOpened hcontrol =>
      rw [hcontrol] at hmatch
      have hstate : s.progress.state = .resolving := hmatch
      exact h.enter rfl (by rw [hstate]; rfl) rfl
  | commit hcontrol =>
      rw [hcontrol] at hmatch
      exact h.enter rfl (by rw [hmatch.1]; rfl) rfl
  | refuse hcontrol | openGivenUp hcontrol | openCancelled hcontrol =>
      -- The job fails while it resolves its connectors.
      rw [hcontrol] at hmatch
      have hstate : s.progress.state = .resolving := hmatch
      exact h.quiet rfl rfl (by rw [hstate]; rfl)
  | readFailed hcontrol =>
      rw [hcontrol] at hmatch
      have hstate : s.progress.state = .transferring := hmatch
      exact h.quiet rfl rfl (by rw [hstate]; rfl)
  | transferCancelled hcontrol | failureReceived hcontrol | writeGivenUp hcontrol
  | writeCancelled hcontrol =>
      -- The transfer fails, and the writer waits for the reader.
      rw [hcontrol] at hmatch
      refine h.quiet rfl rfl ⟨hmatch, ?_⟩
      intro e he
      cases he
      rfl
  | drained hcontrol =>
      rw [hcontrol] at hmatch
      exact h.quiet rfl rfl ⟨hmatch, nofun⟩
  | @joinedAfterFailure e _ hcontrol =>
      rw [hcontrol] at hmatch
      refine h.quiet rfl rfl ?_
      show e.arisesIn s.progress.state = true
      rw [hmatch.1]
      exact hmatch.2 e rfl
  | joinedBroken hcontrol | joinedCancelled hcontrol =>
      rw [hcontrol] at hmatch
      exact h.quiet rfl rfl (by rw [hmatch.1]; rfl)
  | @committed call state answer hcontrol =>
      rw [hcontrol] at hmatch
      have hstate : s.progress.state = .committing := hmatch
      refine h.quiet rfl rfl ?_
      rw [hstate]
      cases answer <;> rfl
  | sinkClosed hcontrol | sourceClosed hcontrol =>
      rw [hcontrol] at hmatch
      exact h.quiet rfl rfl hmatch

theorem step (h : Recorded s) (hstep : s.Step w c events s') : Recorded s' := by
  cases hstep with
  | @writer t seen _ hmove =>
      have hseeing : Recorded (s.seeing seen) := ⟨h.history, h.control⟩
      have hkept := hseeing.writer_step (.of_move hmove)
      exact ⟨hkept.history, hkept.control⟩
  | reader _ hmove => cases ReaderStep.of_move hmove <;> exact ⟨h.history, h.control⟩
  | cancel | elapse => exact ⟨h.history, h.control⟩

/-- The record is right at every moment of every run. -/
theorem of_trace {state : σ} {before : Bool} {cancelAt : Option Nat}
    (hrun : Trace w c (.start state before cancelAt) events s) : Recorded s := by
  induction hrun with
  | refl => exact start state before cancelAt
  | step _ hstep ih => exact ih.step hstep

end Recorded

end JobRun

/-- A connector that cannot be made is of an unknown kind or has been given wrong options. -/
theorem Registry.arisesIn_of_make {α : Type} {role : Role} {makers : KeyMap (Maker α)}
    {policy : UnknownOptionPolicy} {run : RunId} {kind : String} {options : OptionMap} {e : JobError}
    (h : make role makers policy run kind options = .error e) : e.arisesIn .resolving = true := by
  unfold make at h
  split at h
  · cases h
    rfl
  · split at h
    · cases h
      rfl
    · split at h
      · cases h
        rfl
      · cases h

namespace Host

variable {h : Host} {registry : ConnectorRegistry} {settings : JobSettings} {plan : Plan}
  {cancellation : Cancellation} {events : List JobEvent} {outcome : JobOutcome}

theorem arisesIn_of_makeSite {e : JobError} (hsite : h.makeSite registry plan = .error e) :
    e.arisesIn .resolving = true := by
  unfold makeSite at hsite
  split at hsite
  · rename_i hsource
    cases hsite
    exact Registry.arisesIn_of_make hsource
  · split at hsite
    · rename_i hsink
      cases hsite
      exact Registry.arisesIn_of_make hsink
    · cases hsite

/-- What a run of a plan has recorded when it is over: the whole way, or the way to the state in
which its failure has arisen and then that it has failed. -/
theorem PlanRun.history (hrun : h.PlanRun registry settings plan cancellation events outcome) :
    (∀ report, outcome.result = .ok report →
      outcome.progress.history = JobState.way .completed ∧
        outcome.progress.state = .completed ∧ report.progress = outcome.progress) ∧
      ∀ e, outcome.result = .error e → ∃ state : JobState, e.arisesIn state = true ∧
        outcome.progress.history = state.way ++ [.failed] ∧ outcome.progress.state = .failed := by
  cases hrun with
  | @unresolved e hsite =>
      refine ⟨nofun, ?_⟩
      intro _ he
      cases he
      exact ⟨.resolving, arisesIn_of_makeSite hsite, rfl, rfl⟩
  | @resolved site _ s hsite hrun hended =>
      obtain ⟨answer, hcontrol⟩ := JobRun.hasEnded_iff.mp hended
      have houtcome := JobRun.outcome?_eq_some_iff.mpr hcontrol
      have hrecorded := JobRun.Recorded.of_trace hrun
      have hmatch := hrecorded.control
      rw [hcontrol] at hmatch
      cases answer with
      | ok receipt =>
          rw [concludeJob_ok houtcome]
          refine ⟨?_, nofun⟩
          intro report hreport
          cases hreport
          have hstate : s.progress.state = .committing := hmatch
          refine ⟨?_, rfl, rfl⟩
          show s.progress.history ++ [.completed] = JobState.way .completed
          rw [hrecorded.history, hstate]
          rfl
      | error e =>
          rw [concludeJob_error houtcome]
          refine ⟨nofun, ?_⟩
          intro _ he
          cases he
          refine ⟨s.progress.state, hmatch, ?_, rfl⟩
          show s.progress.history ++ [.failed] = s.progress.state.way ++ [.failed]
          rw [hrecorded.history]

/-- Whatever the connectors of a job do, its record is right at every moment. Every run of a plan, of
which the one that is executed is one, records states that follow one another as they may, from the
planned job to the one final state that it comes to. A completed job has passed all of them. A job
that has failed has done so in a state in which its failure may arise: connectors are found and
opened before the transfer, batches are read and written during it, and the sink commits after it; a
cancellation stops the job before the commit. -/
theorem records_states (h : Host) (registry : ConnectorRegistry) (settings : JobSettings)
    (plan : Plan) (cancellation : Cancellation) :
    (∀ {σ : Type} (w : Wiring σ) (state : σ) (before : Bool) (cancelAt : Option Nat)
      (events : List JobEvent) (s : JobRun σ),
      JobRun.Trace w settings (.start state before cancelAt) events s → s.Recorded) ∧
      (∃ events, h.PlanRun registry settings plan cancellation events
        (h.runPlan registry settings plan cancellation)) ∧
      ∀ events outcome, h.PlanRun registry settings plan cancellation events outcome →
        JobState.IsRecord outcome.progress.history ∧
          outcome.progress.history.getLast? = some outcome.progress.state ∧
          (∀ report, outcome.result = .ok report →
            outcome.progress.history =
                [.planned, .resolving, .transferring, .committing, .completed] ∧
              report.progress = outcome.progress) ∧
          ∀ e, outcome.result = .error e → ∃ before state,
            outcome.progress.history = before ++ [state, .failed] ∧ e.arisesIn state = true := by
  refine ⟨?_, h.planRun_runPlan registry settings plan cancellation, ?_⟩
  · intro σ w state before cancelAt events s hrun
    exact .of_trace hrun
  intro events outcome hrun
  obtain ⟨hcompleted, hfailed⟩ := hrun.history
  cases hresult : outcome.result with
  | ok report =>
      obtain ⟨hhistory, hstate, hreport⟩ := hcompleted report hresult
      rw [hhistory, hstate]
      refine ⟨JobState.isRecord_completed, rfl, ?_, nofun⟩
      intro _ hreport'
      cases hreport'
      exact ⟨rfl, hreport⟩
  | error e =>
      obtain ⟨state, harises, hhistory, hstate⟩ := hfailed e hresult
      rw [hhistory, hstate]
      refine ⟨JobState.isRecord_failed (JobError.isFinal_of_arisesIn harises),
        List.getLast?_concat, nofun, ?_⟩
      intro _ he
      cases he
      exact ⟨JobState.all.takeWhile (· != state), state,
        by rw [JobState.way, List.append_assoc, List.singleton_append], harises⟩

/-- A job whose source cannot be opened fails while it resolves its connectors; one that delivers its
row passes all states. -/
theorem records_states_noServer :
    (∃ events outcome,
      (new []).PlanRun noServerRegistry JobRun.oneBatchSettings noServerPlan {} events outcome ∧
        JobState.IsRecord outcome.progress.history ∧
        outcome.progress.history = [.planned, .resolving, .failed]) ∧
      ∃ events outcome report,
        oneRowHost.PlanRun secretRegistry JobRun.oneBatchSettings secretPlan {} events outcome ∧
          outcome.result = .ok report ∧ JobState.IsRecord report.progress.history ∧
          report.progress.history.length = 5 := by
  obtain ⟨-, -, hfailing⟩ := records_states (new []) noServerRegistry JobRun.oneBatchSettings
    noServerPlan {}
  obtain ⟨-, -, hcompleting⟩ := records_states oneRowHost secretRegistry JobRun.oneBatchSettings
    secretPlan {}
  refine ⟨?_, ?_⟩
  · have hsite : (new []).makeSite noServerRegistry noServerPlan = .ok noServerSite := rfl
    have hended := (((JobRun.Trace.refl (w := JobSite.wiring (siteKind noServerSite))
      (c := JobRun.oneBatchSettings) (.start noServerSite false none)).step
        (.writer (.inl rfl) rfl)).step (.writer (.inl rfl) rfl)).step (.writer (.inl rfl) rfl)
    have hrun : (new []).PlanRun noServerRegistry JobRun.oneBatchSettings noServerPlan {}
      _ _ := .resolved hsite hended rfl
    obtain ⟨hrecord, -, -, -⟩ := hfailing _ _ hrun
    exact ⟨_, _, hrun, hrecord, rfl⟩
  · obtain ⟨events, hrun⟩ := oneRowHost.planRun_runPlan secretRegistry JobRun.oneBatchSettings
      secretPlan {}
    obtain ⟨hrecord, -, hcompleted, -⟩ := hcompleting _ _ hrun
    obtain ⟨report, hreport⟩ : ∃ report, (oneRowHost.runPlan secretRegistry
        JobRun.oneBatchSettings secretPlan {}).result = .ok report := ⟨_, rfl⟩
    obtain ⟨hhistory, hsame⟩ := hcompleted report hreport
    refine ⟨events, _, report, hrun, hreport, ?_, ?_⟩
    · rw [hsame]
      exact hrecord
    · rw [hsame, hhistory]
      rfl

end Host

end BatchTransfer
