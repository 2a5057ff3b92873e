import BatchTransfer.Proofs.Job.Termination

/-!
# Transfers do not get stuck

Reader and writer wait for each other at a queue that may be full or empty, for the ends of calls,
for arrivals and for delays. `Trace.transfer_progresses` says that at no moment of a run they both
wait in vain: until the writer has left the transfer, one of the two moves at once or at a moment
for which it waits. A writer that stops on a failure or a cancellation waits for the reader alone,
and the reader then ends with its next move, for which it waits for nothing.
-/

namespace BatchTransfer.JobRun

variable {σ : Type}

/-! ### What the parties can do -/

/-- Whether the writer or the reader moves when it is the given time. -/
def MovesAt (w : Wiring σ) (c : JobSettings) (time : Nat) (s : JobRun σ) : Prop :=
  ({ s with time }.writerMove w c).isSome = true ∨ ({ s with time }.readerMove c).isSome = true

/-- Whether the writer or the reader moves at once or as soon as the time comes for which it waits:
the end of a call or of a delay, or the next arrival. -/
def Progresses (w : Wiring σ) (c : JobSettings) (s : JobRun σ) : Prop :=
  s.MovesAt w c s.time ∨
    ∃ due, s.time < due ∧ (s.writerDue? = some due ∨ s.reader.due? = some due) ∧ s.MovesAt w c due

/-- Whether the reader has its turn in a step. It makes its move, or has none, on the job as it last
saw it. -/
def ReaderTurn (c : JobSettings) (s s' : JobRun σ) : Prop :=
  ∃ seen : Bool, (seen = true → s.cancelled = true) ∧
    ∀ t, (s.seeing seen).readerMove c = some t → s' = t.seeing s.cancelled

/-- A run without end, in which the reader has its turn again and again. -/
structure ServesReader (w : Wiring σ) (c : JobSettings) (run : Nat → JobRun σ) : Prop where
  step : ∀ n, ∃ events, Step w c (run n) events (run (n + 1))
  turn : ∀ n, ∃ m, n ≤ m ∧ ReaderTurn c (run m) (run (m + 1))

variable {w : Wiring σ} {c : JobSettings} {events : List JobEvent} {s s' : JobRun σ}

/-! ### Room in the queue -/

/-- The writer puts nothing into the queue. -/
theorem queue_suffix_of_writerStep (h : s.WriterStep w c events s') : s'.queue <:+ s.queue := by
  cases h with
  | failureReceived _ _ hqueue | emptyReceived _ _ hqueue | batchReceived _ _ hqueue =>
      rw [hqueue]
      exact List.suffix_cons _ _
  | _ => exact List.suffix_rfl

/-- A step leaves no more items in the queue than it has room for. -/
theorem Step.queue_length_le (h : s.Step w c events s')
    (hroom : s.queue.length ≤ max c.capacity 1) : s'.queue.length ≤ max c.capacity 1 := by
  cases h with
  | writer hseen hmove =>
      exact (queue_suffix_of_writerStep (.of_move hmove)).length_le.trans hroom
  | @reader t seen hseen hmove =>
      cases ReaderStep.of_move hmove with
      | sent hreader hleft hfree =>
          simp only [seeing, List.length_append, List.length_singleton]
          exact hfree
      | _ => exact hroom
  | cancel | elapse => exact hroom

/-- At every moment of a run, no more items wait in the queue than it has room for. -/
theorem Trace.queue_length_le {state : σ} {before : Bool} {cancelAt : Option Nat}
    (hrun : Trace w c (.start state before cancelAt) events s) :
    s.queue.length ≤ max c.capacity 1 := by
  induction hrun with
  | refl => exact Nat.zero_le _
  | step hrun hstep ih => exact hstep.queue_length_le ih

/-- Every job in a run is ready. -/
theorem Ready.of_trace {state : σ} {before : Bool} {cancelAt : Option Nat}
    (hrun : Trace w c (.start state before cancelAt) events s) : s.Ready c := by
  induction hrun with
  | refl => exact .start state before cancelAt
  | step hrun hstep ih => exact ih.step hstep

/-! ### Somebody moves -/

theorem Progresses.of_writer (h : (s.writerMove w c).isSome = true) : s.Progresses w c :=
  .inl (.inl h)

theorem Progresses.of_reader (h : (s.readerMove c).isSome = true) : s.Progresses w c :=
  .inl (.inr h)

/-- A writer that waits for a time moves when it comes. -/
theorem Progresses.of_writerDue {due : Nat} (h : s.writerDue? = some due) : s.Progresses w c := by
  rcases Nat.lt_or_ge s.time due with hlater | hdue
  · refine .inr ⟨due, hlater, .inl h, .inl ?_⟩
    exact writerMove_of_due (s := { s with time := due }) h (Nat.le_refl due)
  · exact .of_writer (writerMove_of_due h hdue)

/-- A reader that waits for a time moves when it comes. -/
theorem Progresses.of_readerDue {due : Nat} (h : s.reader.due? = some due) : s.Progresses w c := by
  rcases Nat.lt_or_ge s.time due with hlater | hdue
  · refine .inr ⟨due, hlater, .inr h, .inr ?_⟩
    exact readerMove_of_due (s := { s with time := due }) h (Nat.le_refl due)
  · exact .of_reader (readerMove_of_due h hdue)

/-- A reader that has not ended moves, as long as nothing keeps it from putting an item into the
queue. -/
theorem Progresses.of_openReader (habsent : s.reader ≠ .absent)
    (hopen : s.reader.isFinished = false) (hroom : s.queue = [] ∨ s.hasLeft = true) :
    s.Progresses w c := by
  cases hdue : s.reader.due? with
  | some due => exact .of_readerDue hdue
  | none => exact .of_reader (readerMove_of_not_due hdue habsent hopen hroom)

/-- Until the writer has left the transfer, somebody moves. -/
theorem Ready.progresses (h : s.Ready c) (htransfers : s.control.transfers = true) :
    s.Progresses w c := by
  have habsent : s.reader ≠ .absent := h.present htransfers
  cases hcontrol : s.control with
  | receiving =>
      -- The writer waits only at an empty queue, into which the reader can put its next item.
      cases hcancelled : s.cancelled with
      | true => exact .of_writer (by simp [writerMove, hcontrol, hcancelled])
      | false =>
          cases hqueue : s.queue with
          | cons => exact .of_writer (by simp [writerMove, hcontrol, hcancelled, hqueue])
          | nil =>
              cases hfinished : s.reader.isFinished with
              | true =>
                  exact .of_writer (by simp [writerMove, hcontrol, hcancelled, hqueue, hfinished])
              | false => exact .of_openReader habsent hfinished (.inl hqueue)
  | writing batch budget call =>
      have hdue : s.writerDue? = some call.due := by simp [writerDue?, hcontrol]
      exact .of_writerDue hdue
  | writeBackoff batch budget due =>
      have hdue : s.writerDue? = some due := by simp [writerDue?, hcontrol]
      exact .of_writerDue hdue
  | joining outcome =>
      cases hreader : s.reader with
      | finished brokeDown => exact .of_writer (by simp [writerMove, hcontrol, hreader])
      | _ =>
          exact .of_openReader habsent (by simp [hreader, Reader.isFinished])
            (.inr (by simp [hasLeft, hcontrol]))
  | _ => simp [hcontrol, Control.transfers] at htransfers

/-! ### The end of the reader -/

/-- A reader that is to stop has ended or can move. -/
theorem readerMove_of_stopsReader (hstop : s.stopsReader = true) (habsent : s.reader ≠ .absent)
    (hopen : s.reader.isFinished = false) :
    s.readerMove c = some { s with reader := .finished false } := by
  cases hreader : s.reader with
  | absent => exact absurd hreader habsent
  | finished brokeDown => simp [hreader, Reader.isFinished] at hopen
  | pulling | sending => simp [readerMove, hreader, hstop]

theorem stopsReader_of_joining {e : JobError} (h : s.control = .joining (.error e)) :
    s.stopsReader = true := by
  simp [stopsReader, h]

/-- As long as the reader has not ended, a writer that has stopped waits for it. -/
theorem Step.control_eq_of_joining {outcome : JobResult Unit} (hstep : s.Step w c events s')
    (h : s.control = .joining outcome) (hopen : s.reader.isFinished = false) :
    s'.control = .joining outcome := by
  cases hstep with
  | @writer t seen hseen hmove =>
      cases hreader : s.reader with
      | finished brokeDown => simp [hreader, Reader.isFinished] at hopen
      | _ => simp [seeing, writerMove, h, hreader] at hmove
  | @reader t seen hseen hmove => cases ReaderStep.of_move hmove <;> exact h
  | cancel | elapse => exact h

/-- Once the reader has ended, a writer that has stopped leaves the transfer. -/
theorem exists_writerMove_of_finished {e : JobError} (h : s.control = .joining (.error e))
    (hfinished : s.reader.isFinished = true) :
    ∃ t, s.writerMove w c = some t ∧ t.control.transfers = false := by
  cases hreader : s.reader with
  | finished brokeDown =>
      exact ⟨s.afterJoin w c brokeDown (.error e), by simp [writerMove, h, hreader], rfl⟩
  | _ => simp [hreader, Reader.isFinished] at hfinished

/-- In a run that serves the reader, it ends once the writer has stopped, and the writer has waited
for it. -/
theorem ServesReader.exists_isFinished {run : Nat → JobRun σ} (hrun : ServesReader w c run)
    (hready : (run 0).Ready c) {e : JobError} (h : (run 0).control = .joining (.error e)) :
    ∃ n, (run n).control = .joining (.error e) ∧ (run n).reader.isFinished = true := by
  by_contra hnever
  rw [not_exists] at hnever
  -- A reader that never ends keeps the writer waiting at every moment.
  have hwaits (n : Nat) : (run n).Ready c ∧ (run n).control = .joining (.error e) := by
    induction n with
    | zero => exact ⟨hready, h⟩
    | succ n ih =>
        obtain ⟨hready, hcontrol⟩ := ih
        obtain ⟨events, hstep⟩ := hrun.step n
        have hopen : (run n).reader.isFinished = false :=
          eq_false_of_ne_true fun hfinished => hnever n ⟨hcontrol, hfinished⟩
        exact ⟨hready.step hstep, hstep.control_eq_of_joining hcontrol hopen⟩
  obtain ⟨m, -, seen, -, hturn⟩ := hrun.turn 0
  obtain ⟨hready, hcontrol⟩ := hwaits m
  have hopen : (run m).reader.isFinished = false :=
    eq_false_of_ne_true fun hfinished => hnever m ⟨hcontrol, hfinished⟩
  have habsent : (run m).reader ≠ .absent := hready.present (by rw [hcontrol]; rfl)
  have hmove := readerMove_of_stopsReader (c := c) (s := (run m).seeing seen)
    (stopsReader_of_joining hcontrol) habsent hopen
  refine hnever (m + 1) ⟨(hwaits (m + 1)).2, ?_⟩
  rw [hturn _ hmove]
  rfl

/-- From wherever the writer has stopped, some run serves the reader. -/
theorem exists_servesReader (hready : s.Ready c) {e : JobError}
    (h : s.control = .joining (.error e)) : ∃ run, run 0 = s ∧ ServesReader w c run := by
  have habsent : s.reader ≠ .absent := hready.present (by rw [h]; rfl)
  -- A reader that has ended has its turn in every step, also where nothing happens in it.
  have hidle {t : JobRun σ} (hfinished : t.reader.isFinished = true) : ReaderTurn c t t := by
    cases hreader : t.reader with
    | finished brokeDown =>
        refine ⟨t.cancelled, id, fun u hmove => ?_⟩
        simp [seeing, readerMove, hreader] at hmove
    | _ => simp [hreader, Reader.isFinished] at hfinished
  have hstays (t : JobRun σ) : ∃ events, Step w c t events t := ⟨[], .elapse (Nat.le_refl t.time)⟩
  cases hopen : s.reader.isFinished with
  | true => exact ⟨fun _ => s, rfl, fun _ => hstays s, fun n => ⟨n, Nat.le_refl n, hidle hopen⟩⟩
  | false =>
      have hmove := readerMove_of_stopsReader (c := c) (s := s) (stopsReader_of_joining h) habsent
        hopen
      refine ⟨fun n => if n = 0 then s else { s with reader := .finished false }, rfl, fun n => ?_,
        fun n => ⟨n + 1, Nat.le_succ n, by simpa using hidle rfl⟩⟩
      cases n with
      | zero => exact ⟨[], .reader id hmove⟩
      | succ n => simpa using hstays _

/-- Let the queue have room for at least one batch. At every moment of every run, no more batches
wait in it than it has room for; and until the writer has left the transfer, the writer or the
reader moves, at once or when the time comes for which it waits. After the writer has stopped on a
failure or a cancellation, the reader has ended or ends with its next move, which it can make at
once, whatever it has seen of a cancellation and however full the queue is. It does so in every run
in which it has its turn again and again, and the writer waits until then and can leave the
transfer. -/
theorem Trace.transfer_progresses (hcapacity : 1 ≤ c.capacity) {state : σ} {before : Bool}
    {cancelAt : Option Nat} (hrun : Trace w c (.start state before cancelAt) events s) :
    s.queue.length ≤ c.capacity ∧
      (s.control.transfers = true → s.Progresses w c) ∧
      (∀ e, s.control = .joining (.error e) →
        (s.reader.isFinished = true ∨ ∀ seen, (s.seeing seen).readerMove c =
          some { s.seeing seen with reader := .finished false }) ∧
        (∀ run, run 0 = s → ServesReader w c run →
          ∃ n, (run n).control = s.control ∧ (run n).reader.isFinished = true ∧
            ∃ t, (run n).writerMove w c = some t ∧ t.control.transfers = false)) := by
  have hready : s.Ready c := .of_trace hrun
  refine ⟨?_, hready.progresses, fun e hcontrol => ⟨?_, ?_⟩⟩
  · have hroom := hrun.queue_length_le
    rwa [Nat.max_eq_left hcapacity] at hroom
  · have habsent : s.reader ≠ .absent := hready.present (by rw [hcontrol]; rfl)
    cases hopen : s.reader.isFinished with
    | true => exact .inl rfl
    | false =>
        refine .inr fun seen => ?_
        exact readerMove_of_stopsReader (s := s.seeing seen) (stopsReader_of_joining hcontrol)
          habsent hopen
  · rintro run rfl hserves
    obtain ⟨n, hjoining, hfinished⟩ := hserves.exists_isFinished hready hcontrol
    exact ⟨n, hjoining.trans hcontrol.symm, hfinished,
      exists_writerMove_of_finished hjoining hfinished⟩

/-! ### A full queue in front of a sink that fails -/

/-- A source of three batches with one row each, and a sink whose first write fails for good. -/
def failingSinkWiring : Wiring Unit where
  kind _ := "list"
  openCall _ _ _ := .now () (.ok ())
  readCall _ _ := .now () (.ok (.ofBatches [oneRow, oneRow, oneRow]))
  writeCall _ _ _ := .now () (.error ⟨.fatal, "broken"⟩)
  commitCall _ _ := .now () (.ok ⟨0, none⟩)
  closeCall _ _ _ := .now () (.ok ())
  asksToCancel _ := false

/-- The queue is full and the reader has a batch in its hands when the sink fails. In a run in which
the reader has its turn, it ends and the writer goes on. -/
theorem Trace.transfer_progresses_fullQueue :
    ∃ events s run,
      Trace failingSinkWiring oneBatchSettings (.start () false none) events s ∧
        s.queue.length = oneBatchSettings.capacity ∧
        s.reader = .sending (.ok oneRow) (.listed []) ∧
        s.Progresses failingSinkWiring oneBatchSettings ∧ run 0 = s ∧
        ServesReader failingSinkWiring oneBatchSettings run ∧
        ∃ n, (run n).reader.isFinished = true ∧
          ∃ t, (run n).writerMove failingSinkWiring oneBatchSettings = some t ∧
            t.control.transfers = false := by
  have hread := ((((Trace.refl (w := failingSinkWiring) (c := oneBatchSettings)
    (.start () false none)).step (.writer (.inl rfl) rfl)).step (.writer (.inl rfl) rfl)).step
    (.writer (.inl rfl) rfl)).step (.writer (.inl rfl) rfl)
  have hwriting := ((hread.step (.reader id rfl)).step (.reader id rfl)).step
    (.writer (.inl rfl) rfl)
  have hfull := ((hwriting.step (.reader id rfl)).step (.reader id rfl)).step (.reader id rfl)
  have hfailed := hfull.step (.writer (.inl rfl) rfl)
  obtain ⟨-, hmoves, hends⟩ := hfailed.transfer_progresses (Nat.le_refl 1)
  obtain ⟨run, hfrom, hserves⟩ := exists_servesReader (w := failingSinkWiring)
    (Ready.of_trace hfailed) rfl
  obtain ⟨n, -, hfinished, hleaves⟩ := (hends _ rfl).2 run hfrom hserves
  exact ⟨_, _, run, hfailed, rfl, rfl, hmoves rfl, hfrom, hserves, n, hfinished, hleaves⟩

end BatchTransfer.JobRun
