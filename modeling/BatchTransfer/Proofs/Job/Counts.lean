import BatchTransfer.Proofs.Job.Course

/-!
# What a job counts

The rows that a job counts as read are those of the batches that its writer has received, and the
rows that it counts as written are those that its sink has acknowledged. When it commits, the writer
has received every batch of the stream, so that the rows read are all rows of the source
(`JobRun.Trace.rowsRead_of_commits`).
-/

namespace BatchTransfer

open JobEvent (allReceived allAcknowledged streamRead? answers)
open StreamItem (nonEmptyBatches)

/-- The number of rows of batches. -/
def Batch.totalSize (batches : List Batch) : Nat := (batches.map Batch.size).sum

namespace Batch

@[simp]
theorem totalSize_nil : totalSize [] = 0 := rfl

@[simp]
theorem totalSize_append (batches more : List Batch) :
    totalSize (batches ++ more) = totalSize batches + totalSize more := by
  simp [totalSize]

@[simp]
theorem totalSize_singleton (batch : Batch) : totalSize [batch] = batch.size := by
  simp [totalSize]

@[simp]
theorem totalSize_cons (batch : Batch) (batches : List Batch) :
    totalSize (batch :: batches) = batch.size + totalSize batches := by
  simp [totalSize]

theorem size_of_isEmpty {batch : Batch} (h : batch.isEmpty = true) : batch.size = 0 := by
  rw [isEmpty, List.isEmpty_iff] at h
  rw [size, h, List.length_nil]

/-- Batches without rows add none. -/
theorem totalSize_filter (batches : List Batch) :
    totalSize (batches.filter (!·.isEmpty)) = totalSize batches := by
  induction batches with
  | nil => rfl
  | cons batch batches ih =>
      cases hempty : batch.isEmpty with
      | true => simp [hempty, ih, size_of_isEmpty hempty]
      | false => simp [hempty, ih]

end Batch

/-- The batches of a stream, with or without rows. -/
def Stream.batches (s : Stream) : List Batch := s.items.filterMap StreamItem.batch?

/-- The rows of a stream are those of its batches with rows. -/
theorem Stream.totalSize_nonEmptyBatches (s : Stream) :
    Batch.totalSize s.nonEmptyBatches = Batch.totalSize s.batches :=
  Batch.totalSize_filter s.batches

namespace JobEvent

/-- The rows that an event acknowledges. -/
def rowsOfWrite : JobEvent → Nat
  | written _ (.ok ack) => ack.rows
  | _ => 0

/-- The rows that the sink has acknowledged. -/
def rowsAcknowledged (events : List JobEvent) : Nat := (events.map rowsOfWrite).sum

variable (events more : List JobEvent)

@[simp]
theorem rowsAcknowledged_append :
    rowsAcknowledged (events ++ more) = rowsAcknowledged events + rowsAcknowledged more := by
  simp [rowsAcknowledged]

@[simp]
theorem rowsAcknowledged_answers : rowsAcknowledged (answers events) = rowsAcknowledged events := by
  induction events with
  | nil => rfl
  | cons e events ih =>
      have hcons (rest : List JobEvent) :
          rowsAcknowledged (e :: rest) = e.rowsOfWrite + rowsAcknowledged rest :=
        rowsAcknowledged_append [e] rest |>.trans (by simp [rowsAcknowledged])
      rw [answers, List.filter_cons, ← answers]
      split
      · rw [hcons, hcons, ih]
      · have hnone : e.rowsOfWrite = 0 := by cases e <;> simp_all [isAnswer, rowsOfWrite]
        rw [ih, hcons, hnone, Nat.zero_add]

/-- An event that acknowledges no batch leaves the batches and the rows acknowledged as they
are. -/
theorem acknowledged_concat {e : JobEvent} (h : e.acknowledged? = none) :
    allAcknowledged (events ++ [e]) = allAcknowledged events ∧
      rowsAcknowledged (events ++ [e]) = rowsAcknowledged events := by
  have hrows : e.rowsOfWrite = 0 := by
    unfold acknowledged? at h
    split at h
    · cases h
    · unfold rowsOfWrite
      split
      · simp_all
      · rfl
  exact ⟨by simp [allAcknowledged, h], by simp [rowsAcknowledged, hrows]⟩

end JobEvent

open JobEvent (rowsAcknowledged)

namespace JobRun

variable {σ : Type} {w : Wiring σ} {c : JobSettings} {events more : List JobEvent}
  {s s' : JobRun σ} {state : σ} {before : Bool} {cancelAt : Option Nat}

/-- What a job has counted is what its writer has received and its sink has acknowledged. -/
structure Counts (events : List JobEvent) (s : JobRun σ) : Prop where
  read : s.progress.rowsRead = Batch.totalSize (nonEmptyBatches (allReceived events))
  written : s.progress.rowsWritten = rowsAcknowledged events

namespace Counts

/-- A move in which nothing is counted. -/
theorem quiet (h : Counts events s) (hread : nonEmptyBatches (allReceived more) = [])
    (hwritten : rowsAcknowledged more = 0) (hrowsRead : s'.progress.rowsRead = s.progress.rowsRead)
    (hrowsWritten : s'.progress.rowsWritten = s.progress.rowsWritten) :
    Counts (events ++ more) s' where
  read := by simpa [hread, hrowsRead] using h.read
  written := by simpa [hwritten, hrowsWritten] using h.written

theorem writer_step (h : Counts events s) (hstep : s.WriterStep w c more s') :
    Counts (events ++ more) s' := by
  cases hstep with
  | @emptyReceived batch rest _ _ _ hempty =>
      have hreceived : allReceived [.received (.ok batch)] = [.batch batch] := rfl
      have hnothing : rowsAcknowledged [.received (.ok batch)] = 0 := rfl
      refine ⟨?_, by simpa [hnothing, JobProgress.countRead] using h.written⟩
      simp [hreceived, nonEmptyBatches, StreamItem.batch?, hempty, JobProgress.countRead, h.read,
        Batch.size_of_isEmpty hempty]
  | @batchReceived batch rest _ _ _ hempty =>
      have hreceived : allReceived [.received (.ok batch), .writing batch] = [.batch batch] := rfl
      have hnothing : rowsAcknowledged [.received (.ok batch), .writing batch] = 0 := rfl
      refine ⟨?_, by simpa [hnothing, beginWrite, JobProgress.countRead] using h.written⟩
      simp [hreceived, nonEmptyBatches, StreamItem.batch?, hempty, beginWrite,
        JobProgress.countRead, h.read]
  | @acknowledged batch budget call state ack =>
      have hreceived : allReceived [.written batch (.ok ack)] = [] := rfl
      have hrows : rowsAcknowledged [.written batch (.ok ack)] = ack.rows := Nat.add_zero _
      refine ⟨?_, ?_⟩
      · simpa [hreceived, JobProgress.countWritten] using h.read
      · simp [hrows, JobProgress.countWritten, h.written]
  | _ => exact h.quiet rfl rfl rfl rfl

/-- The counts are right at every moment of every run. -/
theorem of_trace (hrun : Trace w c (.start state before cancelAt) events s) : Counts events s := by
  induction hrun with
  | refl => exact ⟨rfl, rfl⟩
  | @step s u events more _ hstep ih =>
      cases hstep with
      | @writer s' seen _ hmove =>
          have hseeing : Counts events (s.seeing seen) := ⟨ih.read, ih.written⟩
          have hkept := hseeing.writer_step (.of_move hmove)
          exact ⟨hkept.read, hkept.written⟩
      | reader _ hmove =>
          rw [List.append_nil]
          cases ReaderStep.of_move hmove <;> exact ⟨ih.read, ih.written⟩
      | cancel | elapse =>
          rw [List.append_nil]
          exact ⟨ih.read, ih.written⟩

end Counts

/-- A job that has come to commit has read all rows of its source. -/
theorem Trace.rowsRead_of_commits (hrun : Trace w c (.start state before cancelAt) events s)
    (hcommits : s.control.commits = true) {stream : Stream}
    (hread : streamRead? events = some stream) :
    s.progress.rowsRead = Batch.totalSize stream.batches := by
  have hdelivery := Delivery.of_trace hrun
  obtain ⟨stream', hstream, -, hall⟩ := Delivery.whole_of_trace hrun hcommits
  cases hread.symm.trans hstream
  -- What has been acknowledged has been received, and there is no more in the stream.
  have hreceived : nonEmptyBatches (allReceived events) <+: stream.nonEmptyBatches :=
    StreamItem.nonEmptyBatches_prefix
      ((List.prefix_append _ _).trans (hdelivery.passed_prefix_stream hread))
  have hwhole : nonEmptyBatches (allReceived events) = stream.nonEmptyBatches := by
    refine hreceived.eq_of_length (Nat.le_antisymm hreceived.length_le ?_)
    exact hall ▸ hdelivery.acknowledged_prefix.length_le
  rw [(Counts.of_trace hrun).read, hwhole, stream.totalSize_nonEmptyBatches]

end JobRun

end BatchTransfer
