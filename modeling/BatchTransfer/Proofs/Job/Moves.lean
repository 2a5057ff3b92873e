import BatchTransfer.Job.Machine

/-!
# Jobs in any order of moves

`JobRun.next` makes the moves of a job in one order. `JobRun.Step` is a move of either party, the
arrival of a cancellation or the passing of time, at any moment, and `JobRun.Trace` is a run of such
steps together with what the connectors were asked and answered on the way. `JobRun.trace_finish`
says that the run that is executed is one of them. `WriterStep` and `ReaderStep` list what a move of
either party can do, so that no proof about runs has to open the machine again.
-/

namespace BatchTransfer

/-- What happens between a job and its connectors, and between its reader and its writer: calls that
are entered, the answers they end with, and items that the writer takes out of the queue. -/
inductive JobEvent where
  | opening (role : Role)
  | opened (role : Role) (answer : ConnectorResult Unit)
  | reading
  | read (answer : ConnectorResult Stream)
  | received (item : ConnectorResult Batch)
  | writing (batch : Batch)
  | written (batch : Batch) (answer : ConnectorResult Acknowledgement)
  | committing
  | committed (answer : ConnectorResult CommitReceipt)
  | closing (role : Role)
  | closed (role : Role)

/-- Whether the writer waits for something beside a cancellation. It looks for the cancellation
first and may go on although one has arrived since. -/
def Control.isSelecting {σ : Type} : Control σ → Bool
  | .openBackoff .. | .receiving | .writeBackoff .. => true
  | _ => false

namespace JobRun

variable {σ : Type}

/-- The job as a party sees it that has looked whether it is cancelled. -/
def seeing (s : JobRun σ) (cancelled : Bool) : JobRun σ := { s with cancelled }

/-- What the writer's next move is an answer to. -/
def answerEvents (c : JobSettings) (s : JobRun σ) : List JobEvent :=
  match s.control with
  | .opening role _ call => [.opened role (call.conclude "open" c.openLimit s.state).2]
  | .reading call => [.read (call.finish s.state).2]
  | .receiving => if s.cancelled then [] else (s.queue.head?.map JobEvent.received).toList
  | .writing batch _ call =>
      [.written batch (call.conclude "batch write" c.writeLimit s.state).2]
  | .committing call => [.committed (call.conclude "commit" c.commitLimit s.state).2]
  | .closing role _ _ => [.closed role]
  | _ => []

/-- The call that the writer has entered with its last move. -/
def entryEvents (s : JobRun σ) : List JobEvent :=
  match s.control with
  | .opening role _ _ => [.opening role]
  | .reading _ => [.reading]
  | .writing batch _ _ => [.writing batch]
  | .committing _ => [.committing]
  | .closing role _ _ => [.closing role]
  | _ => []

variable (w : Wiring σ) (c : JobSettings)

/-- One step of a job, with what happens in it. A party acts on the job as it last saw it: the
writer may have missed a cancellation only while it waits for something else as well, and the reader
always does. -/
inductive Step : JobRun σ → List JobEvent → JobRun σ → Prop where
  | writer {s s' : JobRun σ} {seen : Bool}
      (hseen : seen = s.cancelled ∨ seen = false ∧ s.control.isSelecting = true)
      (hmove : (s.seeing seen).writerMove w c = some s') :
      Step s ((s.seeing seen).answerEvents c ++ s'.entryEvents)
        (s'.seeing (s'.cancelled || s.cancelled))
  | reader {s s' : JobRun σ} {seen : Bool} (hseen : seen = true → s.cancelled = true)
      (hmove : (s.seeing seen).readerMove c = some s') :
      Step s [] (s'.seeing s.cancelled)
  | cancel {s : JobRun σ} : Step s [] { s with cancelled := true, cancelAt := none }
  | elapse {s : JobRun σ} {time : Nat} (hle : s.time ≤ time) : Step s [] { s with time }

/-- A run of steps, with all that happens in it. -/
inductive Trace : JobRun σ → List JobEvent → JobRun σ → Prop where
  | refl (s : JobRun σ) : Trace s [] s
  | step {s t u : JobRun σ} {events more : List JobEvent}
      (hrun : Trace s events t) (hstep : Step w c t more u) : Trace s (events ++ more) u

variable {w c}

theorem Trace.trans {s t u : JobRun σ} {events more : List JobEvent}
    (hst : Trace w c s events t) (htu : Trace w c t more u) : Trace w c s (events ++ more) u := by
  induction htu with
  | refl => simpa using hst
  | step _ hstep ih =>
      rw [← List.append_assoc]
      exact ih.step hstep

/-! ### What one move can do -/

/-- The moves of the writer, with what happens in each. -/
inductive WriterStep (w : Wiring σ) (c : JobSettings) (s : JobRun σ) :
    List JobEvent → JobRun σ → Prop where
  | refuse (hcontrol : s.control = .begin) (hcancelled : s.cancelled = true) :
      WriterStep w c s [] { s with control := .ended (.error .cancelled) }
  | begin (hcontrol : s.control = .begin) (hcancelled : s.cancelled = false) :
      WriterStep w c s [.opening .source] (s.beginOpen w c .source (.new c.maxRetries))
  | sourceOpened {budget call state} (hcontrol : s.control = .opening .source budget call)
      (hdue : call.due ≤ s.time)
      (hanswer : call.conclude "open" c.openLimit s.state = (state, .ok ())) :
      WriterStep w c s [.opened .source (.ok ()), .opening .sink]
        ({ s with state }.beginOpen w c .sink (.new c.maxRetries))
  | sinkOpened {budget call state} (hcontrol : s.control = .opening .sink budget call)
      (hdue : call.due ≤ s.time)
      (hanswer : call.conclude "open" c.openLimit s.state = (state, .ok ())) :
      WriterStep w c s [.opened .sink (.ok ()), .reading] ({ s with state }.beginRead w)
  | openRepeated {role budget call state e} (hcontrol : s.control = .opening role budget call)
      (hdue : call.due ≤ s.time)
      (hanswer : call.conclude "open" c.openLimit s.state = (state, .error e))
      (hrepeat : e.isRetryableOnOpen = true) (hallowed : budget.spend.allows = true) :
      WriterStep w c s [.opened role (.error e)]
        { s with
          state
          control := .openBackoff role budget.spend (s.time + c.retryDelay budget.spend.failures)
          progress := s.progress.countRetry }
  | openGivenUp {role budget call state e} (hcontrol : s.control = .opening role budget call)
      (hdue : call.due ≤ s.time)
      (hanswer : call.conclude "open" c.openLimit s.state = (state, .error e))
      (hfinal : e.isRetryableOnOpen = true → budget.spend.allows = false) :
      WriterStep w c s [.opened role (.error e), .closing role]
        ({ s with state }.beginClose w c role (.error (.connection role (w.kind role) e)))
  | openCancelled {role budget due} (hcontrol : s.control = .openBackoff role budget due)
      (hcancelled : s.cancelled = true) :
      WriterStep w c s [.closing role] (s.beginClose w c role (.error .cancelled))
  | openAgain {role budget due} (hcontrol : s.control = .openBackoff role budget due)
      (hdue : due ≤ s.time)
      (hcancelled : s.cancelled = false) :
      WriterStep w c s [.opening role] (s.beginOpen w c role budget)
  | readStarted {call state stream} (hcontrol : s.control = .reading call)
      (hdue : call.due ≤ s.time)
      (hanswer : call.finish s.state = (state, .ok stream)) :
      WriterStep w c s [.read (.ok stream)]
        { s with state, control := .receiving, reader := .pulling stream s.time }
  | readFailed {call state e} (hcontrol : s.control = .reading call)
      (hdue : call.due ≤ s.time)
      (hanswer : call.finish s.state = (state, .error e)) :
      WriterStep w c s [.read (.error e), .closing .sink]
        ({ s with state }.beginClose w c .sink (.error (.sourceRead (w.kind .source) e)))
  | transferCancelled (hcontrol : s.control = .receiving) (hcancelled : s.cancelled = true) :
      WriterStep w c s [] { s with control := .joining (.error .cancelled) }
  | failureReceived {e rest} (hcontrol : s.control = .receiving) (hcancelled : s.cancelled = false)
      (hqueue : s.queue = .error e :: rest) :
      WriterStep w c s [.received (.error e)]
        { s with queue := rest, control := .joining (.error (.sourceRead (w.kind .source) e)) }
  | emptyReceived {batch rest} (hcontrol : s.control = .receiving)
      (hcancelled : s.cancelled = false) (hqueue : s.queue = .ok batch :: rest)
      (hempty : batch.isEmpty = true) :
      WriterStep w c s [.received (.ok batch)]
        { s with queue := rest, progress := s.progress.countRead batch.size batch.schema }
  | batchReceived {batch rest} (hcontrol : s.control = .receiving)
      (hcancelled : s.cancelled = false) (hqueue : s.queue = .ok batch :: rest)
      (hempty : batch.isEmpty = false) :
      WriterStep w c s [.received (.ok batch), .writing batch]
        ({ s with queue := rest, progress := s.progress.countRead batch.size batch.schema
          }.beginWrite w c batch (.new c.maxRetries))
  | drained (hcontrol : s.control = .receiving) (hcancelled : s.cancelled = false)
      (hqueue : s.queue = []) (hreader : s.reader.isFinished = true) :
      WriterStep w c s [] { s with control := .joining (.ok ()) }
  | acknowledged {batch budget call state ack} (hcontrol : s.control = .writing batch budget call)
      (hdue : call.due ≤ s.time)
      (hanswer : call.conclude "batch write" c.writeLimit s.state = (state, .ok ack)) :
      WriterStep w c s [.written batch (.ok ack)]
        { s with
          state
          cancelled := s.cancelled || w.asksToCancel state
          control := .receiving
          progress := s.progress.countWritten ack }
  | writeRepeated {batch budget call state e} (hcontrol : s.control = .writing batch budget call)
      (hdue : call.due ≤ s.time)
      (hanswer : call.conclude "batch write" c.writeLimit s.state = (state, .error e))
      (hrepeat : e.isRetryable = true) (hallowed : budget.spend.allows = true) :
      WriterStep w c s [.written batch (.error e)]
        { s with
          state
          cancelled := s.cancelled || w.asksToCancel state
          control := .writeBackoff batch budget.spend (s.time + c.retryDelay budget.spend.failures)
          progress := s.progress.countRetry }
  | writeGivenUp {batch budget call state e attempts}
      (hcontrol : s.control = .writing batch budget call) (hdue : call.due ≤ s.time)
      (hanswer : call.conclude "batch write" c.writeLimit s.state = (state, .error e))
      (hfinal : e.isRetryable = true → budget.spend.allows = false)
      (hattempts : attempts = (if e.isRetryable then budget.spend else budget).attempts) :
      WriterStep w c s [.written batch (.error e)]
        { s with
          state
          cancelled := s.cancelled || w.asksToCancel state
          control := .joining (.error (.sinkWrite (w.kind .sink) attempts e)) }
  | writeCancelled {batch budget due} (hcontrol : s.control = .writeBackoff batch budget due)
      (hcancelled : s.cancelled = true) :
      WriterStep w c s [] { s with control := .joining (.error .cancelled) }
  | writeAgain {batch budget due} (hcontrol : s.control = .writeBackoff batch budget due)
      (hdue : due ≤ s.time)
      (hcancelled : s.cancelled = false) :
      WriterStep w c s [.writing batch] (s.beginWrite w c batch budget)
  | joinedAfterFailure {e brokeDown} (hcontrol : s.control = .joining (.error e))
      (hreader : s.reader = .finished brokeDown) :
      WriterStep w c s [.closing .sink] (s.beginClose w c .sink (.error e))
  | joinedBroken (hcontrol : s.control = .joining (.ok ())) (hreader : s.reader = .finished true) :
      WriterStep w c s [.closing .sink]
        (s.beginClose w c .sink
          (.error (.sourceRead (w.kind .source) ⟨.internal, "reader task failed"⟩)))
  | joinedCancelled (hcontrol : s.control = .joining (.ok ()))
      (hreader : s.reader = .finished false) (hcancelled : s.cancelled = true) :
      WriterStep w c s [.closing .sink] (s.beginClose w c .sink (.error .cancelled))
  | commit (hcontrol : s.control = .joining (.ok ())) (hreader : s.reader = .finished false)
      (hcancelled : s.cancelled = false) :
      WriterStep w c s [.committing] (s.beginCommit w c)
  | committed {call state answer} (hcontrol : s.control = .committing call)
      (hdue : call.due ≤ s.time)
      (hanswer : call.conclude "commit" c.commitLimit s.state = (state, answer)) :
      WriterStep w c s [.committed answer, .closing .sink]
        ({ s with state }.beginClose w c .sink (commitOutcome w answer))
  | sinkClosed {outcome call state answer} (hcontrol : s.control = .closing .sink outcome call)
      (hdue : call.due ≤ s.time)
      (hanswer : call.conclude "close" c.openLimit s.state = (state, answer)) :
      WriterStep w c s [.closed .sink, .closing .source]
        ({ s with state }.beginClose w c .source outcome)
  | sourceClosed {outcome call state answer} (hcontrol : s.control = .closing .source outcome call)
      (hdue : call.due ≤ s.time)
      (hanswer : call.conclude "close" c.openLimit s.state = (state, answer)) :
      WriterStep w c s [.closed .source] { s with state, control := .ended outcome }

/-- The moves of the reader. -/
inductive ReaderStep (c : JobSettings) (s : JobRun σ) : JobRun σ → Prop where
  | stopped (hreader : s.reader ≠ .absent) (hopen : s.reader.isFinished = false)
      (hstop : s.stopsReader = true ∨ s.hasLeft = true) :
      ReaderStep c s { s with reader := .finished false }
  | exhausted {stream since} (hreader : s.reader = .pulling stream since)
      (hnext : stream.next? = none) :
      ReaderStep c s { s with reader := .finished false }
  | pulled {stream since a rest} (hreader : s.reader = .pulling stream since)
      (hnext : stream.next? = some (a, rest)) :
      ReaderStep c s { s with reader := afterArrival rest a.item }
  | sent {item rest} (hreader : s.reader = .sending item rest) (hleft : s.hasLeft = false)
      (hroom : s.queue.length < max c.capacity 1) :
      ReaderStep c s
        { s with queue := s.queue ++ [item], reader := afterSending rest s.time item }

/-- When a connector has answered to being opened, the next is opened or the source is read; after a
failure it is opened again or the job ends. -/
theorem WriterStep.of_opening {s s' : JobRun σ} {role : Role} {budget : RetryBudget}
    {call : PendingCall σ Unit}
    (hcontrol : s.control = .opening role budget call) (h : s.writerMove w c = some s') :
    WriterStep w c s (s.answerEvents c ++ s'.entryEvents) s' := by
  obtain ⟨state, time, cancelled, cancelAt, control, reader, queue, progress⟩ := s
  cases hcontrol
  simp only [writerMove] at h
  split at h
  · cases h
  have hdue : call.due ≤ time := Nat.le_of_not_lt ‹_›
  -- The answer decides about the move and stands in its event, so both are split on it together.
  generalize hconclude : call.conclude "open" c.openLimit state = ended at h
  obtain ⟨state', answer⟩ := ended
  have hanswer : (call.conclude "open" c.openLimit state).2 = answer := by rw [hconclude]
  simp only [answerEvents, hanswer]
  cases answer with
  | ok done =>
      cases role with
      | source =>
          cases h
          exact .sourceOpened rfl hdue hconclude
      | sink =>
          cases h
          exact .sinkOpened rfl hdue hconclude
  | error e =>
      simp only [afterOpenFailure, Option.some.injEq] at h
      split at h
      · rename_i hrepeat
        rw [Bool.and_eq_true] at hrepeat
        subst h
        exact .openRepeated rfl hdue hconclude hrepeat.1 hrepeat.2
      · rename_i hfinal
        subst h
        exact .openGivenUp rfl hdue hconclude (by simpa using hfinal)

/-- When the source has answered, its stream is received or the job ends. -/
theorem WriterStep.of_reading {s s' : JobRun σ} {call : PendingCall σ Stream}
    (hcontrol : s.control = .reading call) (h : s.writerMove w c = some s') :
    WriterStep w c s (s.answerEvents c ++ s'.entryEvents) s' := by
  obtain ⟨state, time, cancelled, cancelAt, control, reader, queue, progress⟩ := s
  cases hcontrol
  obtain ⟨finish, due, givenUp⟩ := call
  simp only [writerMove] at h
  split at h
  · cases h
  have hdue : due ≤ time := Nat.le_of_not_lt ‹_›
  generalize hfinish : finish state = ended at h
  obtain ⟨state', answer⟩ := ended
  have hanswer : (finish state).2 = answer := by rw [hfinish]
  simp only [answerEvents, hanswer]
  cases answer with
  | ok stream =>
      cases h
      exact .readStarted rfl hdue hfinish
  | error e =>
      cases h
      exact .readFailed rfl hdue hfinish

/-- At the queue, an item is taken out, or the writer leaves. -/
theorem WriterStep.of_receiving {s s' : JobRun σ}
    (hcontrol : s.control = .receiving) (h : s.writerMove w c = some s') :
    WriterStep w c s (s.answerEvents c ++ s'.entryEvents) s' := by
  obtain ⟨state, time, cancelled, cancelAt, control, reader, queue, progress⟩ := s
  cases hcontrol
  simp only [writerMove] at h
  split at h
  · rename_i hcancelled
    cases h
    simp only [answerEvents, if_pos hcancelled]
    exact .transferCancelled rfl hcancelled
  · rename_i hcancelled
    have hopen : cancelled = false := eq_false_of_ne_true hcancelled
    simp only [answerEvents, if_neg hcancelled]
    cases queue with
    | nil =>
        simp only at h
        split at h
        · cases h
          exact .drained rfl hopen rfl ‹_›
        · cases h
    | cons item rest =>
        cases item with
        | error e =>
            cases h
            exact .failureReceived rfl hopen rfl
        | ok batch =>
            simp only [receive, Option.some.injEq] at h
            split at h
            · subst h
              exact .emptyReceived rfl hopen rfl ‹_›
            · subst h
              exact .batchReceived rfl hopen rfl (eq_false_of_ne_true ‹_›)

/-- When the sink has answered to a batch, the next is received; after a failure the batch is
written again or the writer leaves. -/
theorem WriterStep.of_writing {s s' : JobRun σ} {batch : Batch} {budget : RetryBudget}
    {call : PendingCall σ Acknowledgement}
    (hcontrol : s.control = .writing batch budget call) (h : s.writerMove w c = some s') :
    WriterStep w c s (s.answerEvents c ++ s'.entryEvents) s' := by
  obtain ⟨state, time, cancelled, cancelAt, control, reader, queue, progress⟩ := s
  cases hcontrol
  simp only [writerMove] at h
  split at h
  · cases h
  have hdue : call.due ≤ time := Nat.le_of_not_lt ‹_›
  generalize hconclude : call.conclude "batch write" c.writeLimit state = ended at h
  obtain ⟨state', answer⟩ := ended
  have hanswer : (call.conclude "batch write" c.writeLimit state).2 = answer := by
    rw [hconclude]
  simp only [answerEvents, hanswer]
  cases answer with
  | ok ack =>
      cases h
      exact .acknowledged rfl hdue hconclude
  | error e =>
      simp only [afterWriteFailure, Option.some.injEq] at h
      by_cases hretryable : e.isRetryable = true
      · simp only [hretryable, if_true, Bool.true_and] at h
        split at h
        · subst h
          exact .writeRepeated rfl hdue hconclude hretryable ‹_›
        · rename_i hspent
          subst h
          exact .writeGivenUp rfl hdue hconclude (fun _ => eq_false_of_ne_true hspent)
            (by rw [if_pos hretryable])
      · simp only [hretryable, if_false, Bool.false_and, Bool.false_eq_true] at h
        subst h
        exact .writeGivenUp rfl hdue hconclude (fun hrepeat => absurd hrepeat hretryable)
          (by rw [if_neg hretryable])

/-- When the reader has ended as well, the sink is committed or closed. -/
theorem WriterStep.of_joining {s s' : JobRun σ} {outcome : JobResult Unit}
    (hcontrol : s.control = .joining outcome) (h : s.writerMove w c = some s') :
    WriterStep w c s (s.answerEvents c ++ s'.entryEvents) s' := by
  obtain ⟨state, time, cancelled, cancelAt, control, reader, queue, progress⟩ := s
  cases hcontrol
  cases reader with
  | finished brokeDown =>
      simp only [writerMove, Option.some.injEq] at h
      cases outcome with
      | error e =>
          cases h
          exact .joinedAfterFailure rfl rfl
      | ok done =>
          simp only [afterJoin] at h
          split at h
          · cases h
            exact .joinedBroken rfl (by simp_all)
          · have hwhole : brokeDown = false := eq_false_of_ne_true ‹_›
            subst hwhole
            split at h
            · cases h
              exact .joinedCancelled rfl rfl ‹_›
            · cases h
              exact .commit rfl rfl (eq_false_of_ne_true ‹_›)
  | _ => simp [writerMove] at h

/-- Every move of the writer is one of those listed. -/
theorem WriterStep.of_move {s s' : JobRun σ} (h : s.writerMove w c = some s') :
    WriterStep w c s (s.answerEvents c ++ s'.entryEvents) s' := by
  obtain ⟨state, time, cancelled, cancelAt, control, reader, queue, progress⟩ := s
  cases control with
  | begin =>
      simp only [writerMove, Option.some.injEq] at h
      split at h
      · subst h
        exact .refuse rfl ‹_›
      · subst h
        exact .begin rfl (eq_false_of_ne_true ‹_›)
  | opening role budget call => exact .of_opening rfl h
  | openBackoff role budget due =>
      simp only [writerMove] at h
      split at h
      · cases h
        exact .openCancelled rfl ‹_›
      · split at h
        · cases h
        · cases h
          exact .openAgain rfl (Nat.le_of_not_lt ‹_›) (eq_false_of_ne_true ‹_›)
  | reading call => exact .of_reading rfl h
  | receiving => exact .of_receiving rfl h
  | writing batch budget call => exact .of_writing rfl h
  | writeBackoff batch budget due =>
      simp only [writerMove] at h
      split at h
      · cases h
        exact .writeCancelled rfl ‹_›
      · split at h
        · cases h
        · cases h
          exact .writeAgain rfl (Nat.le_of_not_lt ‹_›) (eq_false_of_ne_true ‹_›)
  | joining outcome => exact .of_joining rfl h
  | committing call =>
      simp only [writerMove] at h
      split at h
      · cases h
      cases h
      exact .committed rfl (Nat.le_of_not_lt ‹_›) rfl
  | closing role outcome call =>
      simp only [writerMove] at h
      split at h
      · cases h
      cases role with
      | source =>
          cases h
          exact .sourceClosed rfl (Nat.le_of_not_lt ‹_›) rfl
      | sink =>
          cases h
          exact .sinkClosed rfl (Nat.le_of_not_lt ‹_›) rfl
  | ended outcome => simp [writerMove] at h

/-- Every move of the reader is one of those listed. -/
theorem ReaderStep.of_move {s s' : JobRun σ} (h : s.readerMove c = some s') :
    ReaderStep c s s' := by
  unfold readerMove at h
  split at h
  · cases h
  · cases h
  · rename_i stream since hreader
    split at h
    · cases h
      exact .stopped (by simp [hreader]) (by simp [hreader, Reader.isFinished]) (.inl ‹_›)
    · split at h
      · cases h
        exact .exhausted hreader ‹_›
      · split at h
        · cases h
        · cases h
          exact .pulled hreader ‹_›
  · rename_i item rest hreader
    split at h
    · rename_i hstop
      cases h
      exact .stopped (by simp [hreader]) (by simp [hreader, Reader.isFinished])
        (by simpa using hstop)
    · rename_i hstay
      split at h
      · cases h
        exact .sent hreader (by simp_all) ‹_›
      · cases h

/-! ### The order in which moves are made -/

/-- A move of the writer takes no cancellation back. -/
theorem cancelled_of_writerMove {s s' : JobRun σ} (h : s.writerMove w c = some s')
    (hcancelled : s.cancelled = true) : s'.cancelled = true := by
  have hstep := WriterStep.of_move h
  generalize s.answerEvents c ++ s'.entryEvents = events at hstep
  cases hstep <;>
    simp_all [beginOpen, beginRead, beginClose]

/-- A move of the reader neither brings a cancellation nor takes one back. -/
theorem cancelled_of_readerMove {s s' : JobRun σ} (h : s.readerMove c = some s') :
    s'.cancelled = s.cancelled := by
  cases ReaderStep.of_move h <;> rfl

/-- The clock moves forward only, and changes nothing else. -/
theorem elapse_of_clockMove {s s' : JobRun σ} (h : s.clockMove = some s') :
    ∃ time, s.time ≤ time ∧ s' = { s with time } := by
  unfold clockMove at h
  split at h
  · cases h
  · rename_i time times hdues
    cases h
    -- Only times after the present one are kept, so their least is one as well.
    have hlater (t : Nat) (ht : t ∈ time :: times) : s.time ≤ t := by
      rw [← hdues, List.mem_filter, decide_eq_true_eq] at ht
      exact Nat.le_of_lt ht.2
    refine ⟨_, ?_, rfl⟩
    clear hdues
    induction times generalizing time with
    | nil => exact hlater time (by simp)
    | cons t times ih =>
        refine ih (min time t) fun u hu => ?_
        rcases List.mem_cons.1 hu with rfl | hu
        · exact Nat.le_min.2 ⟨hlater time (by simp), hlater t (by simp)⟩
        · exact hlater u (by simp [hu])

/-- The moves that are made in turn are steps. -/
theorem step_of_next {s s' : JobRun σ} (h : s.next w c = some s') :
    ∃ events, Step w c s events s' := by
  unfold next at h
  split at h
  · cases h
  simp only [Option.orElse_eq_orElse, Option.orElse_eq_or, Option.or_eq_some_iff] at h
  rcases h with hwriter | ⟨-, hcancel | ⟨-, hreader | ⟨-, hclock⟩⟩⟩
  · have hstep := Step.writer (w := w) (c := c) (s := s) (.inl rfl) hwriter
    -- The writer sees the job as it is, so putting the cancellation back changes nothing.
    have hkept : (s'.cancelled || s.cancelled) = s'.cancelled := by
      cases hcancelled : s.cancelled with
      | false => simp
      | true => simp [cancelled_of_writerMove hwriter hcancelled]
    rw [hkept] at hstep
    exact ⟨_, hstep⟩
  · unfold cancelMove at hcancel
    split at hcancel
    · split at hcancel
      · cases hcancel
      · cases hcancel
        exact ⟨[], .cancel⟩
    · cases hcancel
  · have hstep : Step w c s [] (s'.seeing s.cancelled) := .reader id hreader
    rw [← cancelled_of_readerMove hreader] at hstep
    exact ⟨[], hstep⟩
  · obtain ⟨time, hle, rfl⟩ := elapse_of_clockMove hclock
    exact ⟨[], .elapse hle⟩

/-- The job after any number of moves in turn is reached by a run. -/
theorem trace_advance (n : Nat) (s : JobRun σ) :
    ∃ events, Trace w c s events (s.advance w c n) := by
  induction n generalizing s with
  | zero => exact ⟨[], .refl s⟩
  | succ n ih =>
      rw [advance]
      split
      · exact ⟨[], .refl s⟩
      · rename_i t hnext
        obtain ⟨events, hstep⟩ := step_of_next hnext
        obtain ⟨more, hrun⟩ := ih t
        exact ⟨_, (Trace.step (.refl s) hstep).trans hrun⟩

/-- The run that is executed is one of those in any order of moves. -/
theorem trace_finish (s : JobRun σ) : ∃ events, Trace w c s events (s.finish w c) := by
  obtain ⟨events, hopening⟩ := trace_advance (w := w) (c := c) (openingMoves c) s
  obtain ⟨more, htransfer⟩ := trace_advance (w := w) (c := c)
    ((s.advance w c (openingMoves c)).transferMoves c) (s.advance w c (openingMoves c))
  exact ⟨_, hopening.trans htransfer⟩

end JobRun

end BatchTransfer
