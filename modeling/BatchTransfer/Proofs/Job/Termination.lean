import BatchTransfer.Job.Run
import BatchTransfer.Proofs.Job.Delivery
import Mathlib.Tactic.Ring

/-!
# Jobs come to an end

A job that has not ended can move (`JobRun.Ready.exists_next`), and every move but the one that
starts the transfer lowers `JobRun.measure`. The transfer brings in a stream, whose length is not
known before; so the moves up to it and those from it on are bounded apart, as `JobRun.finish` does
(`JobRun.hasEnded_finish`). Hence every plan has a run that ends, and the one that is executed is
such a run (`Host.planRun_runPlan`).
-/

namespace BatchTransfer

namespace Control

variable {σ : Type}

/-- Whether the writer takes batches from the queue or waits for the reader. -/
def transfers : Control σ → Bool
  | .receiving | .writing .. | .writeBackoff .. | .joining _ => true
  | _ => false

/-- The failures counted so far in the call that the writer repeats. -/
def budget? : Control σ → Option RetryBudget
  | .opening _ budget _ | .openBackoff _ budget _ => some budget
  | .writing _ budget _ | .writeBackoff _ budget _ => some budget
  | _ => none

/-- The most moves that the writer still makes before the source is read, or, once it has been read,
beside those for items that have not been taken out of the queue. -/
def effort (maxRetries : Nat) : Control σ → Nat
  | .begin => 4 * maxRetries + 4
  | .opening .source budget _ => 4 * maxRetries - 2 * budget.failures + 3
  | .openBackoff .source budget _ => 4 * maxRetries - 2 * budget.failures + 4
  | .opening .sink budget _ => 2 * maxRetries - 2 * budget.failures + 2
  | .openBackoff .sink budget _ => 2 * maxRetries - 2 * budget.failures + 3
  | .reading _ => 1
  | .writing _ budget _ => 2 * maxRetries - 2 * budget.failures + 6
  | .writeBackoff _ budget _ => 2 * maxRetries - 2 * budget.failures + 7
  | .receiving => 5
  | .joining _ => 4
  | .committing _ => 3
  | .closing .sink _ _ => 2
  | .closing .source _ _ => 1
  | .ended _ => 0

end Control

/-- The most moves that either party still makes for the items that the reader has not put into the
queue. -/
def Reader.effort (maxRetries : Nat) : Reader → Nat
  | .absent => 0
  | .pulling stream _ => stream.size * (2 * maxRetries + 4) + 1
  | .sending _ rest => rest.size * (2 * maxRetries + 4) + (2 * maxRetries + 4)
  | .finished _ => 0

namespace JobRun

variable {σ : Type}

/-- Whether no party can move, and no cancellation is due. -/
def isIdle (w : Wiring σ) (c : JobSettings) (s : JobRun σ) : Bool :=
  (s.writerMove w c).isNone && s.cancelMove.isNone && (s.readerMove c).isNone

/-- The most moves that are still made, without those of the clock. -/
def effort (c : JobSettings) (s : JobRun σ) : Nat :=
  s.control.effort c.maxRetries + s.queue.length * (2 * c.maxRetries + 2) +
    s.reader.effort c.maxRetries + s.cancelAt.toList.length

/-- A number that every move lowers: time passes at most once between two moves of others. -/
def measure (w : Wiring σ) (c : JobSettings) (s : JobRun σ) : Nat :=
  2 * s.effort c + (s.isIdle w c).toNat

/-- What holds of a job at every moment: the reader is there as long as the writer counts on it and
not before, and the failures of a call are counted against the settings and within them. -/
structure Ready (c : JobSettings) (s : JobRun σ) : Prop where
  absent : s.control.precedesRead = true → s.reader = .absent
  present : s.control.transfers = true → s.reader ≠ .absent
  budget : ∀ budget, s.control.budget? = some budget →
    budget.maxRetries = c.maxRetries ∧ budget.failures ≤ c.maxRetries

variable {w : Wiring σ} {c : JobSettings} {events : List JobEvent} {s s' : JobRun σ}

namespace Ready

theorem start (state : σ) (before : Bool) (cancelAt : Option Nat) :
    Ready c (.start state before cancelAt) where
  absent := fun _ => rfl
  present := nofun
  budget := nofun

/-- A failure that may be followed by another attempt is within the settings. -/
theorem spend (h : s.Ready c) {budget : RetryBudget} (hbudget : s.control.budget? = some budget)
    (hallowed : budget.spend.allows = true) :
    budget.spend.maxRetries = c.maxRetries ∧ budget.spend.failures ≤ c.maxRetries := by
  obtain ⟨hmax, -⟩ := h.budget budget hbudget
  exact ⟨hmax, hmax ▸ of_decide_eq_true hallowed⟩

theorem writer_step (h : s.Ready c) (hstep : s.WriterStep w c events s') : s'.Ready c := by
  have hnew (budget : RetryBudget) (hbudget : some (RetryBudget.new c.maxRetries) = some budget) :
      budget.maxRetries = c.maxRetries ∧ budget.failures ≤ c.maxRetries := by
    cases hbudget
    exact ⟨rfl, Nat.zero_le _⟩
  cases hstep with
  | begin hcontrol | sourceOpened hcontrol =>
      exact ⟨fun _ => h.absent (by rw [hcontrol]; rfl), nofun, hnew⟩
  | openRepeated hcontrol _ _ _ hallowed =>
      have hspent := h.spend (by rw [hcontrol]; rfl) hallowed
      exact ⟨fun _ => h.absent (by rw [hcontrol]; rfl), nofun, by rintro _ ⟨⟩; exact hspent⟩
  | writeRepeated hcontrol _ _ _ hallowed =>
      have hspent := h.spend (by rw [hcontrol]; rfl) hallowed
      exact ⟨nofun, fun _ => h.present (by rw [hcontrol]; rfl), by rintro _ ⟨⟩; exact hspent⟩
  | openAgain hcontrol =>
      have hbudget := h.budget _ (by rw [hcontrol]; rfl)
      exact ⟨fun _ => h.absent (by rw [hcontrol]; rfl), nofun, by rintro _ ⟨⟩; exact hbudget⟩
  | writeAgain hcontrol =>
      have hbudget := h.budget _ (by rw [hcontrol]; rfl)
      exact ⟨nofun, fun _ => h.present (by rw [hcontrol]; rfl), by rintro _ ⟨⟩; exact hbudget⟩
  | batchReceived hcontrol =>
      exact ⟨nofun, fun _ => h.present (by rw [hcontrol]; rfl), hnew⟩
  | sinkOpened hcontrol => exact ⟨fun _ => h.absent (by rw [hcontrol]; rfl), nofun, nofun⟩
  | readStarted => exact ⟨nofun, nofun, nofun⟩
  | emptyReceived hcontrol => exact ⟨h.absent, h.present, h.budget⟩
  | transferCancelled hcontrol | failureReceived hcontrol | drained hcontrol
  | acknowledged hcontrol | writeGivenUp hcontrol | writeCancelled hcontrol =>
      exact ⟨nofun, fun _ => h.present (by rw [hcontrol]; rfl), nofun⟩
  | _ => exact ⟨nofun, nofun, nofun⟩

theorem reader_step (h : s.Ready c) (hstep : s.ReaderStep c s') : s'.Ready c := by
  have hmoves (hreader : s.reader ≠ .absent) {t : JobRun σ} (hcontrol : t.control = s.control)
      (ht : t.reader ≠ .absent) : t.Ready c :=
    ⟨fun hbefore => absurd (h.absent (hcontrol ▸ hbefore)) hreader, fun _ => ht,
      fun budget hbudget => h.budget budget (hcontrol ▸ hbudget)⟩
  cases hstep with
  | stopped hreader => exact hmoves hreader rfl nofun
  | exhausted hreader => exact hmoves (by simp [hreader]) rfl nofun
  | @pulled stream since a rest hreader =>
      refine hmoves (by simp [hreader]) rfl ?_
      cases hitem : a.item <;> simp [afterArrival]
  | @sent item rest hreader =>
      refine hmoves (by simp [hreader]) rfl ?_
      cases item <;> simp [afterSending]

theorem seeing (h : s.Ready c) (seen : Bool) : (s.seeing seen).Ready c :=
  ⟨h.absent, h.present, h.budget⟩

theorem step (h : s.Ready c) (hstep : s.Step w c events s') : s'.Ready c := by
  cases hstep with
  | writer hseen hmove => exact ((h.seeing _).writer_step (.of_move hmove)).seeing _
  | reader hseen hmove => exact ((h.seeing _).reader_step (.of_move hmove)).seeing _
  | cancel => exact ⟨h.absent, h.present, h.budget⟩
  | elapse => exact ⟨h.absent, h.present, h.budget⟩

theorem next (h : s.Ready c) (hnext : s.next w c = some s') : s'.Ready c := by
  obtain ⟨events, hstep⟩ := step_of_next hnext
  exact h.step hstep

end Ready

theorem hasEnded_iff : s.hasEnded = true ↔ ∃ outcome, s.control = .ended outcome := by
  unfold hasEnded
  cases s.control <;> simp

theorem outcome?_eq_some_iff {outcome : JobResult CommitReceipt} :
    s.outcome? = some outcome ↔ s.control = .ended outcome := by
  unfold outcome?
  cases s.control <;> simp

/-! ### A job that has not ended can move -/

/-- The writer moves when the time for which it waits has come. -/
theorem writerMove_of_due {due : Nat} (h : s.writerDue? = some due) (hdue : due ≤ s.time) :
    (s.writerMove w c).isSome = true := by
  unfold writerDue? at h
  cases hcontrol : s.control with
  | opening role budget call =>
      rw [hcontrol] at h
      cases h
      simp only [writerMove, hcontrol, if_neg (Nat.not_lt.mpr hdue)]
      split <;> rfl
  | openBackoff | writeBackoff =>
      rw [hcontrol] at h
      cases h
      simp only [writerMove, hcontrol, if_neg (Nat.not_lt.mpr hdue)]
      split <;> rfl
  | reading | writing =>
      rw [hcontrol] at h
      cases h
      simp only [writerMove, hcontrol, if_neg (Nat.not_lt.mpr hdue)]
      split <;> rfl
  | committing =>
      rw [hcontrol] at h
      cases h
      simp only [writerMove, hcontrol, if_neg (Nat.not_lt.mpr hdue), Option.isSome_some]
  | closing role outcome call =>
      rw [hcontrol] at h
      cases h
      simp only [writerMove, hcontrol, if_neg (Nat.not_lt.mpr hdue)]
      cases role <;> rfl
  | _ => simp [hcontrol] at h

/-- A reader that waits for an arrival moves when it is due. -/
theorem readerMove_of_due {due : Nat} (h : s.reader.due? = some due) (hdue : due ≤ s.time) :
    (s.readerMove c).isSome = true := by
  cases hreader : s.reader with
  | pulling stream since =>
      cases hnext : stream.next? with
      | none => simp [hreader, Reader.due?, hnext] at h
      | some arrival =>
          obtain ⟨a, rest⟩ := arrival
          simp only [hreader, Reader.due?, hnext, Option.map_some, Option.some.injEq] at h
          simp only [readerMove, hreader, hnext, h, if_neg (Nat.not_lt.mpr hdue)]
          split <;> rfl
  | _ => simp [hreader, Reader.due?] at h

theorem cancelMove_of_due {due : Nat} (h : s.cancelAt = some due) (hdue : due ≤ s.time) :
    s.cancelMove.isSome = true := by
  simp [cancelMove, h, Nat.not_lt.mpr hdue]

/-- Some party moves when the time for which it waits has come. -/
theorem isIdle_of_due {due : Nat} (h : some due ∈ [s.writerDue?, s.reader.due?, s.cancelAt])
    (hdue : due ≤ s.time) : s.isIdle w c = false := by
  simp only [List.mem_cons, List.not_mem_nil, or_false] at h
  rcases h with h | h | h
  · simp [isIdle, Option.isNone_eq_false_iff.mpr (writerMove_of_due h.symm hdue)]
  · simp [isIdle, Option.isNone_eq_false_iff.mpr (readerMove_of_due h.symm hdue)]
  · simp [isIdle, Option.isNone_eq_false_iff.mpr (cancelMove_of_due h.symm hdue)]

/-- A reader that neither waits for an arrival nor is absent has ended or moves, unless it waits for
room in the queue. -/
theorem readerMove_of_not_due (hdue : s.reader.due? = none) (habsent : s.reader ≠ .absent)
    (hopen : s.reader.isFinished = false) (hroom : s.queue = [] ∨ s.hasLeft = true) :
    (s.readerMove c).isSome = true := by
  cases hreader : s.reader with
  | absent => exact absurd hreader habsent
  | finished brokeDown => simp [hreader, Reader.isFinished] at hopen
  | pulling stream since =>
      have hnext : stream.next? = none := by simpa [hreader, Reader.due?] using hdue
      simp only [readerMove, hreader, hnext]
      split <;> rfl
  | sending item rest =>
      simp only [readerMove, hreader]
      rcases hroom with hqueue | hleft
      · have hroom : 0 < max c.capacity 1 :=
          Nat.lt_of_lt_of_le Nat.zero_lt_one (Nat.le_max_right ..)
        rw [hqueue, List.length_nil, if_pos hroom]
        split <;> rfl
      · simp [hleft]

/-- When nobody waits for a time, a job that has not ended can move. -/
theorem Ready.not_isIdle (h : s.Ready c) (hended : s.hasEnded = false)
    (hwriter : s.writerDue? = none) (hreader : s.reader.due? = none) :
    s.isIdle w c = false := by
  have hmoves (hmove : (s.readerMove c).isSome = true) : s.isIdle w c = false := by
    simp [isIdle, Option.isNone_eq_false_iff.mpr hmove]
  cases hcontrol : s.control with
  | begin => simp [isIdle, writerMove, hcontrol]
  | ended => simp [hasEnded, hcontrol] at hended
  | receiving =>
      have habsent : s.reader ≠ .absent := h.present (by rw [hcontrol]; rfl)
      cases hcancelled : s.cancelled with
      | true => simp [isIdle, writerMove, hcontrol, hcancelled]
      | false =>
          cases hqueue : s.queue with
          | cons => simp [isIdle, writerMove, hcontrol, hcancelled, hqueue]
          | nil =>
              cases hfinished : s.reader.isFinished with
              | true => simp [isIdle, writerMove, hcontrol, hcancelled, hqueue, hfinished]
              | false =>
                  exact hmoves (readerMove_of_not_due hreader habsent hfinished (.inl hqueue))
  | joining outcome =>
      have habsent : s.reader ≠ .absent := h.present (by rw [hcontrol]; rfl)
      have hleft : s.hasLeft = true := by simp [hasLeft, hcontrol]
      cases hfinished : s.reader.isFinished with
      | false => exact hmoves (readerMove_of_not_due hreader habsent hfinished (.inr hleft))
      | true =>
          cases hended : s.reader with
          | finished brokeDown => simp [isIdle, writerMove, hcontrol, hended]
          | _ => simp [hended, Reader.isFinished] at hfinished
  | _ => simp [writerDue?, hcontrol] at hwriter

/-- The clock moves to a time for which somebody waits. -/
theorem isIdle_of_clockMove (h : s.clockMove = some s') : s'.isIdle w c = false := by
  unfold clockMove at h
  split at h
  · cases h
  · rename_i time times hdues
    cases h
    have hleast (t : Nat) (ts : List Nat) : ts.foldl min t ∈ t :: ts := by
      induction ts generalizing t with
      | nil => exact List.mem_singleton_self t
      | cons u ts ih =>
          rcases List.mem_cons.mp (ih (min t u)) with heq | hmem
          · rw [List.foldl_cons, heq]
            rcases Nat.le_total t u with hle | hle
            · simp [Nat.min_eq_left hle]
            · simp [Nat.min_eq_right hle]
          · simp [hmem]
    have hmem := hleast time times
    rw [← hdues, List.mem_filter, List.mem_filterMap] at hmem
    obtain ⟨⟨due, hdue, hsome⟩, -⟩ := hmem
    rw [id_eq] at hsome
    subst hsome
    exact isIdle_of_due hdue (Nat.le_refl _)

/-- A job that has not ended can move. -/
theorem Ready.exists_next (h : s.Ready c) (hended : s.hasEnded = false) :
    ∃ s', s.next w c = some s' := by
  have hmove : s.isIdle w c = false ∨ s.clockMove.isSome = true := by
    unfold clockMove
    split
    · rename_i hdues
      refine .inl ?_
      -- All times for which somebody waits have come, or nobody waits for a time.
      by_cases hdue : ∃ due, some due ∈ [s.writerDue?, s.reader.due?, s.cancelAt]
      · obtain ⟨due, hdue⟩ := hdue
        refine isIdle_of_due hdue (Nat.le_of_not_lt fun hlt => ?_)
        have hmem : due ∈ ([s.writerDue?, s.reader.due?, s.cancelAt].filterMap id).filter
            (s.time < ·) := by
          rw [List.mem_filter, List.mem_filterMap, decide_eq_true_eq]
          exact ⟨⟨_, hdue, rfl⟩, hlt⟩
        rw [hdues] at hmem
        cases hmem
      · rw [not_exists] at hdue
        refine h.not_isIdle hended (Option.eq_none_iff_forall_ne_some.mpr fun due hsome => ?_)
          (Option.eq_none_iff_forall_ne_some.mpr fun due hsome => ?_)
        · exact hdue due (by simp [hsome])
        · exact hdue due (by simp [hsome])
    · exact .inr rfl
  unfold JobRun.next
  rw [hended, if_neg Bool.false_ne_true]
  simp only [Option.orElse_eq_orElse, Option.orElse_eq_or]
  rw [← Option.isSome_iff_exists]
  rcases hmove with hidle | hclock
  · simp only [isIdle, Bool.and_eq_false_iff, Option.isNone_eq_false_iff] at hidle
    rcases hidle with (hwriter | hcancel) | hreader
    · simp [hwriter]
    · simp [hcancel]
    · simp [hreader]
  · simp [hclock]

/-! ### Every move lowers the measure -/

theorem precedesRead_of_writerStep (h : s.WriterStep w c events s')
    (hafter : s.control.precedesRead = false) : s'.control.precedesRead = false := by
  cases h with
  | refuse hcontrol | begin hcontrol | sourceOpened hcontrol | sinkOpened hcontrol
  | openRepeated hcontrol | openGivenUp hcontrol | openCancelled hcontrol | openAgain hcontrol
  | readStarted hcontrol | readFailed hcontrol =>
      simp [hcontrol, Control.precedesRead] at hafter
  | emptyReceived => exact hafter
  | _ => rfl

/-- A move of the writer lowers the effort, unless it starts the transfer or ends the job before. -/
theorem effort_lt_of_writerStep (hready : s.Ready c) (h : s.WriterStep w c events s')
    (hphase : s'.control.precedesRead = s.control.precedesRead) :
    s'.effort c < s.effort c := by
  have hspend {budget : RetryBudget} (hbudget : s.control.budget? = some budget)
      (hallowed : budget.spend.allows = true) : budget.failures + 1 ≤ c.maxRetries :=
    (hready.spend hbudget hallowed).2
  cases h with
  | refuse hcontrol | openGivenUp hcontrol | openCancelled hcontrol | readStarted hcontrol
  | readFailed hcontrol =>
      simp [hcontrol, beginClose, Control.precedesRead] at hphase
  | begin hcontrol =>
      simp only [effort, hcontrol, beginOpen, Control.effort, RetryBudget.new]
      omega
  | sourceOpened hcontrol =>
      obtain ⟨-, hle⟩ := hready.budget _ (by rw [hcontrol]; rfl)
      simp only [effort, hcontrol, beginOpen, Control.effort, RetryBudget.new]
      omega
  | sinkOpened hcontrol =>
      simp only [effort, hcontrol, beginRead, Control.effort]
      omega
  | @openRepeated role budget call state e hcontrol _ _ _ hallowed =>
      have hle := hspend (by rw [hcontrol]; rfl) hallowed
      cases role <;>
        simp only [effort, hcontrol, Control.effort, RetryBudget.spend] <;> omega
  | @openAgain role budget due hcontrol =>
      cases role <;> simp only [effort, hcontrol, beginOpen, Control.effort] <;> omega
  | transferCancelled hcontrol | drained hcontrol =>
      simp only [effort, hcontrol, Control.effort]
      omega
  | failureReceived hcontrol _ hqueue =>
      simp only [effort, hcontrol, hqueue, List.length_cons, Control.effort, Nat.add_mul]
      omega
  | emptyReceived hcontrol _ hqueue =>
      simp only [effort, hcontrol, hqueue, List.length_cons, Control.effort, Nat.add_mul]
      omega
  | batchReceived hcontrol _ hqueue =>
      simp only [effort, hcontrol, hqueue, beginWrite, List.length_cons, Control.effort,
        RetryBudget.new, Nat.add_mul]
      omega
  | acknowledged hcontrol | writeGivenUp hcontrol | writeCancelled hcontrol =>
      simp only [effort, hcontrol, Control.effort]
      omega
  | writeRepeated hcontrol _ _ _ hallowed =>
      have hle := hspend (by rw [hcontrol]; rfl) hallowed
      simp only [effort, hcontrol, Control.effort, RetryBudget.spend]
      omega
  | writeAgain hcontrol =>
      simp only [effort, hcontrol, beginWrite, Control.effort]
      omega
  | joinedAfterFailure hcontrol | joinedBroken hcontrol | joinedCancelled hcontrol
  | committed hcontrol | sinkClosed hcontrol =>
      simp only [effort, hcontrol, beginClose, Control.effort]
      omega
  | commit hcontrol =>
      simp only [effort, hcontrol, beginCommit, Control.effort]
      omega
  | sourceClosed hcontrol =>
      simp only [effort, hcontrol, Control.effort]
      omega

theorem effort_lt_of_readerStep (h : s.ReaderStep c s') : s'.effort c < s.effort c := by
  have hunit : 2 * c.maxRetries + 4 = 2 * c.maxRetries + 2 + 2 := rfl
  cases h with
  | stopped hreader hopen =>
      cases hcase : s.reader with
      | absent => exact absurd hcase hreader
      | finished => simp [hcase, Reader.isFinished] at hopen
      | _ =>
          simp only [effort, hcase, Reader.effort]
          omega
  | exhausted hreader =>
      simp only [effort, hreader, Reader.effort]
      omega
  | @pulled stream since a rest hreader hnext =>
      have hle : (rest.size + 1) * (2 * c.maxRetries + 4) ≤ stream.size * (2 * c.maxRetries + 4) :=
        Nat.mul_le_mul_right _ (Stream.size_of_next? hnext)
      rw [Nat.add_mul, Nat.one_mul] at hle
      cases hitem : a.item <;> simp only [effort, hreader, afterArrival, Reader.effort] <;> omega
  | @sent item rest hreader =>
      -- In the queue an item counts for less than with the reader.
      cases item <;>
        simp only [effort, hreader, afterSending, Reader.effort, List.length_append,
          List.length_singleton, Nat.add_mul, Nat.one_mul] <;> omega

/-- Every move lowers the measure, but for one that starts the transfer or ends the job before. -/
theorem measure_lt_of_next (hready : s.Ready c) (h : s.next w c = some s')
    (hphase : s'.control.precedesRead = s.control.precedesRead) :
    s'.measure w c < s.measure w c := by
  have hless (hlt : s'.effort c < s.effort c) : s'.measure w c < s.measure w c := by
    have := Bool.toNat_le (s'.isIdle w c)
    simp only [measure]
    omega
  unfold next at h
  split at h
  · cases h
  simp only [Option.orElse_eq_orElse, Option.orElse_eq_or, Option.or_eq_some_iff] at h
  rcases h with hwriter | ⟨hnone, hcancel | ⟨hnocancel, hreader | ⟨hnoreader, hclock⟩⟩⟩
  · exact hless (effort_lt_of_writerStep hready (.of_move hwriter) hphase)
  · unfold cancelMove at hcancel
    split at hcancel
    · rename_i time hat
      split at hcancel
      · cases hcancel
      · cases hcancel
        refine hless ?_
        simp [effort, hat]
    · cases hcancel
  · exact hless (effort_lt_of_readerStep (.of_move hreader))
  · -- Time passes only when nobody can move, and then somebody can.
    have hidle : s.isIdle w c = true := by simp [isIdle, hnone, hnocancel, hnoreader]
    have hafter : s'.isIdle w c = false := isIdle_of_clockMove hclock
    obtain ⟨time, -, rfl⟩ := elapse_of_clockMove hclock
    simp only [measure, hidle, hafter, effort]
    simp

theorem precedesRead_of_next (h : s.next w c = some s') (hafter : s.control.precedesRead = false) :
    s'.control.precedesRead = false := by
  obtain ⟨events, hstep⟩ := step_of_next h
  cases hstep with
  | @writer t seen hseen hmove =>
      have hcontrol : t.control.precedesRead = false :=
        precedesRead_of_writerStep (WriterStep.of_move hmove) hafter
      exact hcontrol
  | reader hseen hmove => cases ReaderStep.of_move hmove <;> exact hafter
  | cancel => exact hafter
  | elapse => exact hafter

/-! ### Enough moves -/

theorem advance_of_next (h : s.next w c = some s') (n : Nat) :
    s.advance w c (n + 1) = s'.advance w c n := by
  rw [advance, h]

/-- Where a job that is still at a phase can move, and the measure falls as long as it stays there,
it has left the phase for good after enough moves. The invariant is what else is known of the job.
-/
theorem advance_leaves (phase : JobRun σ → Bool) (invariant : JobRun σ → Prop)
    (hkept : ∀ s s' : JobRun σ, invariant s → s.next w c = some s' → invariant s')
    (hmoves : ∀ s : JobRun σ, invariant s → phase s = true → ∃ s', s.next w c = some s')
    (hleft : ∀ s s' : JobRun σ, s.next w c = some s' → phase s = false → phase s' = false)
    (hfalls : ∀ s s' : JobRun σ, invariant s → s.next w c = some s' → phase s = true →
      phase s' = true → s'.measure w c < s.measure w c)
    {n : Nat} (h : invariant s) (hn : s.measure w c < n) :
    invariant (s.advance w c n) ∧ phase (s.advance w c n) = false := by
  -- A phase that has been left is not entered again, however many moves are still made.
  have hstays (n : Nat) : ∀ s : JobRun σ, invariant s → phase s = false →
      invariant (s.advance w c n) ∧ phase (s.advance w c n) = false := by
    induction n with
    | zero => exact fun s hs hphase => ⟨hs, hphase⟩
    | succ n ih =>
        intro s hs hphase
        rw [advance]
        split
        · exact ⟨hs, hphase⟩
        · rename_i t hnext
          exact ih t (hkept s t hs hnext) (hleft s t hnext hphase)
  induction n generalizing s with
  | zero => cases hn
  | succ n ih =>
      cases hphase : phase s with
      | false => exact hstays (n + 1) s h hphase
      | true =>
          obtain ⟨t, hnext⟩ := hmoves s h hphase
          rw [advance_of_next hnext]
          cases hafter : phase t with
          | false => exact hstays n t (hkept s t h hnext) hafter
          | true =>
              have hlt := hfalls s t h hnext hphase hafter
              exact ih (hkept s t h hnext) (by omega)

theorem measure_start_lt (state : σ) (before : Bool) (cancelAt : Option Nat) :
    (start state before cancelAt).measure w c < openingMoves c := by
  have hidle := Bool.toNat_le ((start state before cancelAt).isIdle w c)
  have hcancel : cancelAt.toList.length ≤ 1 := by cases cancelAt <;> simp
  simp only [measure, effort, start, Control.effort, Reader.effort, List.length_nil, Nat.zero_mul,
    openingMoves] at hidle ⊢
  omega

theorem measure_lt_transferMoves (hafter : s.control.precedesRead = false) :
    s.measure w c < s.transferMoves c := by
  have hidle := Bool.toNat_le (s.isIdle w c)
  have hcancel : s.cancelAt.toList.length ≤ 1 := by cases s.cancelAt <;> simp
  have hcontrol : s.control.effort c.maxRetries ≤ 2 * c.maxRetries + 7 := by
    cases hcase : s.control with
    | begin | opening | openBackoff | reading => simp [hcase, Control.precedesRead] at hafter
    | closing role => cases role <;> simp only [Control.effort] <;> omega
    | _ => simp only [Control.effort]; omega
  have hreader : s.reader.effort c.maxRetries ≤ s.unread * (2 * c.maxRetries + 4) + 1 := by
    cases hcase : s.reader <;>
      simp only [Reader.effort, unread, hcase, Nat.add_mul, Nat.one_mul] <;> omega
  have hitems : (s.unread + s.queue.length + 2) * (4 * c.maxRetries + 32) =
      2 * (s.unread * (2 * c.maxRetries + 4)) + 2 * (s.queue.length * (2 * c.maxRetries + 2)) +
        24 * s.unread + 28 * s.queue.length + (8 * c.maxRetries + 64) := by
    ring
  simp only [measure, effort, transferMoves, hitems]
  omega

theorem hasEnded_of_precedesRead (h : s.control.precedesRead = true) : s.hasEnded = false := by
  cases hcontrol : s.control <;> simp [hcontrol, Control.precedesRead] at h <;>
    simp [hasEnded, hcontrol]

/-- After the moves that are made for it, the source has been read or the job is ending. -/
theorem advance_openingMoves (state : σ) (before : Bool) (cancelAt : Option Nat) :
    let s := (start state before cancelAt).advance w c (openingMoves c)
    s.Ready c ∧ s.control.precedesRead = false := by
  refine advance_leaves (fun s => s.control.precedesRead) (Ready c) (fun s s' => Ready.next)
    (fun s hs hbefore => hs.exists_next (hasEnded_of_precedesRead hbefore))
    (fun s s' => precedesRead_of_next) (fun s s' hs hnext hbefore hbefore' => ?_)
    (Ready.start state before cancelAt) (measure_start_lt state before cancelAt)
  exact measure_lt_of_next hs hnext (hbefore'.trans hbefore.symm)

/-- After the moves that are made for it, a job that has read its source has ended. -/
theorem advance_transferMoves (hready : s.Ready c) (hafter : s.control.precedesRead = false) :
    (s.advance w c (s.transferMoves c)).hasEnded = true := by
  have hended := (advance_leaves (w := w) (c := c) (fun t => !t.hasEnded)
    (fun t => t.Ready c ∧ t.control.precedesRead = false)
    (fun t t' ht hnext => ⟨ht.1.next hnext, precedesRead_of_next hnext ht.2⟩)
    (fun t ht hopen => ht.1.exists_next (by simpa using hopen))
    (fun t t' hnext hended => ?_) (fun t t' ht hnext _ _ => ?_)
    ⟨hready, hafter⟩ (measure_lt_transferMoves hafter)).2
  · simpa using hended
  · -- A job that has ended does not move.
    simp [JobRun.next, (by simpa using hended : t.hasEnded = true)] at hnext
  · exact measure_lt_of_next ht.1 hnext ((precedesRead_of_next hnext ht.2).trans ht.2.symm)

/-- The run that is executed ends. -/
theorem hasEnded_finish (state : σ) (before : Bool) (cancelAt : Option Nat) :
    ((start state before cancelAt).finish w c).hasEnded = true := by
  obtain ⟨hready, hafter⟩ := advance_openingMoves (w := w) (c := c) state before cancelAt
  exact advance_transferMoves hready hafter

end JobRun

namespace Host

variable (h : Host) (registry : ConnectorRegistry) (settings : JobSettings) (plan : Plan)
  (cancellation : Cancellation)

/-- A run of a plan, with all that happens between the job and its connectors and what remains at
the end. Nothing happens where a connector cannot be made; otherwise the moves of the job are made
in any order until it has ended. -/
inductive PlanRun : List JobEvent → JobOutcome → Prop where
  | unresolved {e : JobError} (hsite : h.makeSite registry plan = .error e) :
      PlanRun [] (failed h (JobProgress.planned.enter .resolving) e 0)
  | resolved {site : JobSite} {events : List JobEvent} {s : JobRun JobSite}
      (hsite : h.makeSite registry plan = .ok site)
      (hrun : JobRun.Trace (JobSite.wiring (siteKind site)) settings
        (.start site cancellation.before cancellation.at?) events s)
      (hended : s.hasEnded = true) :
      PlanRun events (concludeJob registry plan h.nextRun s)

/-- The run that is executed is one of the runs of its plan. -/
theorem planRun_runPlan :
    ∃ events, h.PlanRun registry settings plan cancellation events
      (h.runPlan registry settings plan cancellation) := by
  unfold runPlan
  cases hsite : h.makeSite registry plan with
  | error e => exact ⟨[], .unresolved hsite⟩
  | ok site =>
      obtain ⟨events, hrun⟩ := JobRun.trace_finish (w := JobSite.wiring (siteKind site))
        (c := settings) (.start site cancellation.before cancellation.at?)
      exact ⟨events, .resolved hsite hrun (JobRun.hasEnded_finish _ _ _)⟩

end Host

end BatchTransfer
