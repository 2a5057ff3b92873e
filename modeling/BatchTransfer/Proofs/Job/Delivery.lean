import BatchTransfer.Proofs.Job.Moves

/-!
# What a sink acknowledges

Whatever the order of moves, the batches that a sink has acknowledged are the first of the
non-empty batches of the stream, and a commit is entered only when all of them have been
acknowledged and the stream has been read to its end. `Delivery` is the invariant behind this:
every item of the stream is with the writer, in the queue, in the hands of the reader, or still to
come, and a reader that has ended has a reason.
-/

namespace BatchTransfer

namespace StreamItem

/-- The batch that an item is. -/
def batch? : StreamItem → Option Batch
  | batch b => some b
  | _ => none

/-- The batches with rows among items. -/
def nonEmptyBatches (items : List StreamItem) : List Batch :=
  (items.filterMap batch?).filter (!·.isEmpty)

@[simp]
theorem nonEmptyBatches_nil : nonEmptyBatches [] = [] := rfl

@[simp]
theorem nonEmptyBatches_append (items more : List StreamItem) :
    nonEmptyBatches (items ++ more) = nonEmptyBatches items ++ nonEmptyBatches more := by
  simp [nonEmptyBatches]

theorem nonEmptyBatches_prefix {items more : List StreamItem} (h : items <+: more) :
    nonEmptyBatches items <+: nonEmptyBatches more :=
  (h.filterMap batch?).filter _

end StreamItem

namespace Stream

/-- The items of a stream. -/
def items (s : Stream) : List StreamItem := s.arrivals.map Arrival.item

/-- The batches with rows of a stream. -/
def nonEmptyBatches (s : Stream) : List Batch := StreamItem.nonEmptyBatches s.items

/-- Whether a stream holds batches only, with no failure and no breakdown. -/
def EndsNormally (s : Stream) : Prop := ∀ item ∈ s.items, ∃ b, item = .batch b

theorem items_of_next?_eq_none {s : Stream} (h : s.next? = none) : s.items = [] := by
  simp [items, arrivals_of_next?_eq_none h]

theorem items_of_next? {s rest : Stream} {a : Arrival} (h : s.next? = some (a, rest)) :
    s.items = a.item :: rest.items := by
  simp [items, arrivals_of_next? h]

end Stream

namespace JobEvent

/-- The item that the writer takes out of the queue. -/
def received? : JobEvent → Option (ConnectorResult Batch)
  | received item => some item
  | _ => none

/-- The batch that the sink acknowledges. -/
def acknowledged? : JobEvent → Option Batch
  | written batch (.ok _) => some batch
  | _ => none

/-- The stream that the source answers with. -/
def stream? : JobEvent → Option Stream
  | read (.ok stream) => some stream
  | _ => none

/-- Whether an event belongs to the moving of batches from the queue to the sink. -/
def isTransfer : JobEvent → Bool
  | received _ | writing _ | written .. => true
  | _ => false

/-- The items that the writer has taken out of the queue, in order. -/
def allReceived (events : List JobEvent) : List StreamItem :=
  (events.filterMap received?).map .ofResult

/-- The batches that the sink has acknowledged, in order. -/
def allAcknowledged (events : List JobEvent) : List Batch := events.filterMap acknowledged?

/-- The stream that has been read. -/
def streamRead? (events : List JobEvent) : Option Stream := events.findSome? stream?

section Append

variable (events more : List JobEvent)

@[simp]
theorem allReceived_append :
    allReceived (events ++ more) = allReceived events ++ allReceived more := by
  simp [allReceived]

@[simp]
theorem allAcknowledged_append :
    allAcknowledged (events ++ more) = allAcknowledged events ++ allAcknowledged more := by
  simp [allAcknowledged]

@[simp]
theorem streamRead?_append :
    streamRead? (events ++ more) = (streamRead? events).or (streamRead? more) := by
  simp [streamRead?, List.findSome?_append]

end Append

end JobEvent

open JobEvent (allReceived allAcknowledged streamRead?)
open StreamItem (nonEmptyBatches ofResult)

namespace Control

variable {σ : Type}

/-- The batches that have been taken out of the queue and not yet been acknowledged, as long as the
transfer goes well. -/
def inFlight? : Control σ → Option (List Batch)
  | .receiving | .joining (.ok ()) | .committing _ => some []
  | .writing batch _ _ | .writeBackoff batch _ _ => some [batch]
  | _ => none

/-- Whether the source has not been read yet. -/
def precedesRead : Control σ → Bool
  | .begin | .opening .. | .openBackoff .. | .reading _ => true
  | _ => false

/-- Whether the writer has come to commit, and the commit has not failed. -/
def commits : Control σ → Bool
  | .committing _ | .closing _ (.ok _) _ | .ended (.ok _) => true
  | _ => false

/-- Whether the writer has left the queue for good. -/
def hasLeft : Control σ → Bool
  | .joining (.error _) | .closing .. | .ended _ => true
  | _ => false

end Control

/-- What the reader still has to do with the items of a stream of which the first are `passed` on.
A reader that has ended was stopped, has broken down, has passed on a failure, or is through. -/
def Reader.Accounts (stream? : Option Stream) (passed : List StreamItem) (stopped : Bool) :
    Reader → Prop
  | absent => stream? = none ∧ passed = []
  | pulling rest _ => ∃ stream, stream? = some stream ∧ stream.items = passed ++ rest.items
  | sending item rest =>
      ∃ stream, stream? = some stream ∧ stream.items = passed ++ ofResult item :: rest.items
  | finished brokeDown =>
      ∃ stream, stream? = some stream ∧ passed <+: stream.items ∧
        (stopped = true ∨ brokeDown = true ∨ (∃ e, .failure e ∈ passed) ∨ stream.items = passed)

/-- Every item of the stream is accounted for. Whether the job is cancelled is told apart from the
job itself, of which a party may have an older view. -/
structure Delivery {σ : Type} (cancelled : Bool) (events : List JobEvent) (s : JobRun σ) :
    Prop where
  acknowledged_prefix : allAcknowledged events <+: nonEmptyBatches (allReceived events)
  in_flight : ∀ batches, s.control.inFlight? = some batches →
    (∀ item ∈ allReceived events, ∃ b, item = .batch b) ∧
      allAcknowledged events ++ batches = nonEmptyBatches (allReceived events)
  drained : s.control = .joining (.ok ()) → s.queue = [] ∧ s.reader.isFinished = true
  unread : s.control.precedesRead = true → streamRead? events = none
  accounted : s.reader.Accounts (streamRead? events)
    (allReceived events ++ s.queue.map ofResult) (cancelled || s.control.hasLeft)

/-- A reader that accounts for the items goes on doing so when the job is stopped. -/
theorem Reader.Accounts.mono {r : Reader} {stream? : Option Stream} {passed : List StreamItem}
    {stopped stopped' : Bool} (h : r.Accounts stream? passed stopped)
    (hstopped : stopped = true → stopped' = true) : r.Accounts stream? passed stopped' := by
  cases r with
  | finished brokeDown =>
      obtain ⟨stream, hstream, hprefix, hcause⟩ := h
      exact ⟨stream, hstream, hprefix, hcause.imp_left hstopped⟩
  | _ => exact h

/-- A reader that has begun has passed on the first items of a stream. -/
theorem Reader.Accounts.passed_prefix {r : Reader} {stream? : Option Stream}
    {passed : List StreamItem} {stopped : Bool} (h : r.Accounts stream? passed stopped)
    (hr : r ≠ .absent) : ∃ stream, stream? = some stream ∧ passed <+: stream.items := by
  cases r with
  | absent => exact absurd rfl hr
  | pulling rest since =>
      obtain ⟨stream, hstream, hitems⟩ := h
      exact ⟨stream, hstream, hitems ▸ List.prefix_append _ _⟩
  | sending item rest =>
      obtain ⟨stream, hstream, hitems⟩ := h
      exact ⟨stream, hstream, hitems ▸ List.prefix_append _ _⟩
  | finished brokeDown =>
      obtain ⟨stream, hstream, hprefix, -⟩ := h
      exact ⟨stream, hstream, hprefix⟩

namespace Delivery

variable {σ : Type} {w : Wiring σ} {c : JobSettings} {cancelled : Bool}
  {events more : List JobEvent} {s s' : JobRun σ}

theorem start (state : σ) (before : Bool) (cancelAt : Option Nat) :
    Delivery cancelled [] (JobRun.start state before cancelAt) where
  acknowledged_prefix := List.prefix_rfl
  in_flight := by simp [JobRun.start, Control.inFlight?]
  drained := by simp [JobRun.start]
  unread := fun _ => rfl
  accounted := ⟨rfl, rfl⟩

theorem mono {cancelled' : Bool} (h : Delivery cancelled events s)
    (hcancelled : cancelled = true → cancelled' = true) : Delivery cancelled' events s where
  acknowledged_prefix := h.acknowledged_prefix
  in_flight := h.in_flight
  drained := h.drained
  unread := h.unread
  accounted := h.accounted.mono fun hstopped => by
    rw [Bool.or_eq_true] at hstopped ⊢
    exact hstopped.imp_left hcancelled

/-- A move in which nothing is received, acknowledged or read, and the queue and the reader stay as
they are, keeps the account. -/
theorem quiet (h : Delivery cancelled events s) (hreceived : allReceived more = [])
    (hacknowledged : allAcknowledged more = []) (hread : streamRead? more = none)
    (hqueue : s'.queue = s.queue) (hreader : s'.reader = s.reader)
    (hleft : s.control.hasLeft = true → s'.control.hasLeft = true)
    (hflight : ∀ batches, s'.control.inFlight? = some batches →
      s.control.inFlight? = some batches)
    (hdrained : s'.control = .joining (.ok ()) → s.queue = [] ∧ s.reader.isFinished = true)
    (hunread : s'.control.precedesRead = true → s.control.precedesRead = true) :
    Delivery cancelled (events ++ more) s' where
  acknowledged_prefix := by simpa [hreceived, hacknowledged] using h.acknowledged_prefix
  in_flight := fun batches hbatches => by
    simpa [hreceived, hacknowledged] using h.in_flight batches (hflight batches hbatches)
  drained := fun hjoined => by
    rw [hqueue, hreader]
    exact hdrained hjoined
  unread := fun hbefore => by simp [hread, h.unread (hunread hbefore)]
  accounted := by
    rw [hqueue, hreader]
    simpa [hreceived, hread] using h.accounted.mono fun hstopped => by
      rw [Bool.or_eq_true] at hstopped ⊢
      exact hstopped.imp_right hleft

/-- Before the source has been read, nothing has been passed on. -/
theorem untouched (h : Delivery cancelled events s) (hread : streamRead? events = none) :
    s.reader = .absent ∧ allReceived events = [] ∧ s.queue = [] := by
  have haccounted := h.accounted
  rw [hread] at haccounted
  cases hreader : s.reader with
  | absent =>
      rw [hreader] at haccounted
      obtain ⟨-, hpassed⟩ := haccounted
      rw [List.append_eq_nil_iff, List.map_eq_nil_iff] at hpassed
      exact ⟨rfl, hpassed⟩
  | _ =>
      rw [hreader] at haccounted
      obtain ⟨stream, hstream, -⟩ := haccounted
      cases hstream

/-- When the source has been read, its stream is all still to come. -/
theorem readStarted (h : Delivery cancelled events s) (hcontrol : s.control.precedesRead = true)
    (stream : Stream) (state : σ) :
    Delivery cancelled (events ++ [.read (.ok stream)])
      { s with state, control := .receiving, reader := .pulling stream s.time } := by
  have hread := h.unread hcontrol
  obtain ⟨-, hreceived, hqueue⟩ := h.untouched hread
  have hacknowledged : allAcknowledged events = [] := by
    simpa [hreceived] using h.acknowledged_prefix
  have hnothing : allReceived [JobEvent.read (.ok stream)] = [] := rfl
  have hnone : allAcknowledged [JobEvent.read (.ok stream)] = [] := rfl
  refine ⟨?_, ?_, ?_, ?_, stream, ?_, ?_⟩
  · simp [hreceived, hacknowledged, hnothing, hnone]
  · simp [hreceived, hacknowledged, hnothing, hnone, Control.inFlight?]
  · simp
  · simp [Control.precedesRead]
  · rw [JobEvent.streamRead?_append, hread]
    rfl
  · simp [hreceived, hnothing, hqueue]

/-- An item that the writer takes out of the queue stays accounted for. -/
theorem accounted_received (h : Delivery cancelled events s) {item : ConnectorResult Batch}
    {rest : List (ConnectorResult Batch)} (hqueue : s.queue = item :: rest) {stopped : Bool}
    (hreceived : allReceived more = [ofResult item]) (hread : streamRead? more = none)
    (hstopped : (cancelled || s.control.hasLeft) = true → stopped = true) :
    s.reader.Accounts (streamRead? (events ++ more))
      (allReceived (events ++ more) ++ rest.map ofResult) stopped := by
  have haccounted := h.accounted.mono hstopped
  rw [hqueue] at haccounted
  simpa [hreceived, hread] using haccounted

/-- A move of the writer keeps the account. -/
theorem writer_step (h : Delivery cancelled events s) (hstep : s.WriterStep w c more s') :
    Delivery cancelled (events ++ more) s' := by
  cases hstep with
  | readStarted hcontrol _ _ => exact h.readStarted (by simp [hcontrol, Control.precedesRead]) _ _
  | @failureReceived e rest hcontrol _ hqueue =>
      have hreceived : allReceived [JobEvent.received (.error e)] = [.failure e] := rfl
      have hacknowledged : allAcknowledged [JobEvent.received (.error e)] = [] := rfl
      have hempty : nonEmptyBatches [.failure e] = [] := rfl
      refine ⟨?_, ?_, ?_, ?_, ?_⟩
      · simpa [hreceived, hacknowledged, hempty] using h.acknowledged_prefix
      · simp [Control.inFlight?]
      · simp
      · simp [Control.precedesRead]
      · exact h.accounted_received hqueue hreceived rfl fun _ => by simp [Control.hasLeft]
  | @emptyReceived batch rest hcontrol _ hqueue hempty =>
      have hreceived : allReceived [JobEvent.received (.ok batch)] = [.batch batch] := rfl
      have hacknowledged : allAcknowledged [JobEvent.received (.ok batch)] = [] := rfl
      have hnone : nonEmptyBatches [.batch batch] = [] := by
        simp [nonEmptyBatches, StreamItem.batch?, hempty]
      refine ⟨?_, ?_, ?_, ?_, ?_⟩
      · simpa [hreceived, hacknowledged, hnone] using h.acknowledged_prefix
      · intro batches hbatches
        obtain ⟨hbatch, hwritten⟩ := h.in_flight batches hbatches
        refine ⟨?_, by simpa [hreceived, hacknowledged, hnone] using hwritten⟩
        simpa [hreceived, or_imp, forall_and] using hbatch
      · simp [hcontrol]
      · simp [hcontrol, Control.precedesRead]
      · exact h.accounted_received hqueue hreceived rfl id
  | @batchReceived batch rest hcontrol _ hqueue hempty =>
      have hreceived : allReceived [JobEvent.received (.ok batch), .writing batch] =
        [.batch batch] := rfl
      have hacknowledged : allAcknowledged [JobEvent.received (.ok batch), .writing batch] = [] :=
        rfl
      have hone : nonEmptyBatches [.batch batch] = [batch] := by
        simp [nonEmptyBatches, StreamItem.batch?, hempty]
      obtain ⟨hbatch, hwritten⟩ := h.in_flight [] (by simp [hcontrol, Control.inFlight?])
      rw [List.append_nil] at hwritten
      refine ⟨?_, ?_, ?_, ?_, ?_⟩
      · simp [hreceived, hacknowledged, hone, hwritten]
      · intro batches hbatches
        cases hbatches
        refine ⟨?_, by simp [hreceived, hacknowledged, hone, hwritten]⟩
        simpa [hreceived, or_imp, forall_and] using hbatch
      · simp [JobRun.beginWrite]
      · simp [JobRun.beginWrite, Control.precedesRead]
      · exact h.accounted_received hqueue hreceived rfl fun hstopped => by
          simpa [hcontrol, JobRun.beginWrite, Control.hasLeft] using hstopped
  | @acknowledged batch budget call state ack hcontrol _ hanswer =>
      have hreceived : allReceived [JobEvent.written batch (.ok ack)] = [] := rfl
      have hacknowledged : allAcknowledged [JobEvent.written batch (.ok ack)] = [batch] := rfl
      obtain ⟨hbatch, hwritten⟩ := h.in_flight [batch] (by simp [hcontrol, Control.inFlight?])
      refine ⟨?_, ?_, ?_, ?_, ?_⟩
      · simp [hreceived, hacknowledged, hwritten]
      · intro batches hbatches
        cases hbatches
        exact ⟨by simpa [hreceived] using hbatch, by simp [hreceived, hacknowledged, hwritten]⟩
      · simp
      · simp [Control.precedesRead]
      · simpa [hreceived, JobEvent.streamRead?, JobEvent.stream?, hcontrol, Control.hasLeft] using
          h.accounted
  | drained hcontrol _ hqueue hreader =>
      -- The one move after which the writer waits for the reader without a failure.
      refine h.quiet rfl rfl rfl rfl rfl ?_ ?_ (fun _ => ⟨hqueue, hreader⟩) ?_ <;>
        simp [hcontrol, Control.hasLeft, Control.inFlight?, Control.precedesRead]
  | refuse hcontrol | begin hcontrol | sourceOpened hcontrol | sinkOpened hcontrol
  | openRepeated hcontrol | openGivenUp hcontrol | openCancelled hcontrol | openAgain hcontrol
  | readFailed hcontrol | transferCancelled hcontrol | writeRepeated hcontrol
  | writeGivenUp hcontrol | writeCancelled hcontrol | writeAgain hcontrol
  | joinedAfterFailure hcontrol | joinedBroken hcontrol | joinedCancelled hcontrol
  | commit hcontrol | committed hcontrol | sinkClosed hcontrol | sourceClosed hcontrol =>
      refine h.quiet rfl rfl rfl rfl rfl ?_ ?_ ?_ ?_ <;>
        simp [hcontrol, JobRun.beginOpen, JobRun.beginRead, JobRun.beginWrite, JobRun.beginCommit,
          JobRun.beginClose, Control.hasLeft, Control.inFlight?, Control.precedesRead]

/-- A move of the reader keeps the account, where a reader that sees a cancellation sees one that is
there. -/
theorem reader_step (h : Delivery cancelled events s) (hstep : s.ReaderStep c s')
    (hcancelled : s.cancelled = true → cancelled = true) : Delivery cancelled events s' := by
  have haccounted := h.accounted
  have hopen (hjoined : s.control = .joining (.ok ())) : s.reader.isFinished = true :=
    (h.drained hjoined).2
  cases hstep with
  | stopped hreader hunfinished hstop =>
      obtain ⟨stream, hstream, hprefix⟩ := haccounted.passed_prefix hreader
      have hstopped : (cancelled || s.control.hasLeft) = true := by
        rw [Bool.or_eq_true]
        cases hcontrol : s.control with
        | joining outcome =>
            -- A writer that waits without a failure has seen the reader end, and does not stop it.
            cases outcome with
            | ok done => simp [hopen hcontrol] at hunfinished
            | error e => exact .inr rfl
        | _ =>
            refine .inl (hcancelled ?_)
            simpa [JobRun.stopsReader, JobRun.hasLeft, hcontrol] using hstop
      refine ⟨h.acknowledged_prefix, h.in_flight, ?_, h.unread, stream, hstream, hprefix,
        .inl hstopped⟩
      exact fun hjoined => ⟨(h.drained hjoined).1, rfl⟩
  | exhausted hreader hnext =>
      rw [hreader] at haccounted
      obtain ⟨stream, hstream, hitems⟩ := haccounted
      rw [Stream.items_of_next?_eq_none hnext, List.append_nil] at hitems
      refine ⟨h.acknowledged_prefix, h.in_flight, ?_, h.unread, stream, hstream, ?_, ?_⟩
      · exact fun hjoined => ⟨(h.drained hjoined).1, rfl⟩
      · exact hitems ▸ List.prefix_rfl
      · exact .inr (.inr (.inr hitems))
  | @pulled stream since a rest hreader hnext =>
      rw [hreader] at haccounted
      obtain ⟨all, hall, hitems⟩ := haccounted
      rw [Stream.items_of_next? hnext] at hitems
      refine ⟨h.acknowledged_prefix, h.in_flight, ?_, h.unread, ?_⟩
      · intro hjoined
        simp [hreader, Reader.isFinished] at hopen
        exact absurd hjoined hopen
      · cases hitem : a.item with
        | batch b =>
            rw [hitem] at hitems
            exact ⟨all, hall, hitems⟩
        | failure e =>
            rw [hitem] at hitems
            exact ⟨all, hall, hitems⟩
        | breakdown => exact ⟨all, hall, hitems ▸ List.prefix_append _ _, .inr (.inl rfl)⟩
  | @sent item rest hreader hleft hroom =>
      rw [hreader] at haccounted
      obtain ⟨all, hall, hitems⟩ := haccounted
      refine ⟨h.acknowledged_prefix, h.in_flight, ?_, h.unread, ?_⟩
      · intro hjoined
        simp [hreader, Reader.isFinished] at hopen
        exact absurd hjoined hopen
      · cases item with
        | ok b => exact ⟨all, hall, by simpa using hitems⟩
        | error e =>
            -- The reader ends behind a failure, whatever is still to come.
            refine ⟨all, hall, ?_, .inr (.inr (.inl ⟨e, by simp [ofResult]⟩))⟩
            exact ⟨rest.items, by simp [hitems]⟩

/-- A party's view of whether the job is cancelled is no part of the account. -/
theorem seeing (h : Delivery cancelled events s) (seen : Bool) :
    Delivery cancelled events (s.seeing seen) :=
  ⟨h.acknowledged_prefix, h.in_flight, h.drained, h.unread, h.accounted⟩

/-- A step keeps the account. -/
theorem step (h : Delivery s.cancelled events s) (hstep : s.Step w c more s') :
    Delivery s'.cancelled (events ++ more) s' := by
  cases hstep with
  | @writer t seen hseen hmove =>
      have hwriter := (h.seeing seen).writer_step (.of_move hmove)
      exact (hwriter.mono fun hcancelled => by simp [JobRun.seeing, hcancelled]).seeing _
  | @reader t seen hseen hmove =>
      rw [List.append_nil]
      exact ((h.seeing seen).reader_step (.of_move hmove) hseen).seeing _
  | cancel =>
      rw [List.append_nil]
      have hfired : Delivery true events s := h.mono fun _ => rfl
      exact ⟨hfired.acknowledged_prefix, hfired.in_flight, hfired.drained, hfired.unread,
        hfired.accounted⟩
  | elapse =>
      rw [List.append_nil]
      exact ⟨h.acknowledged_prefix, h.in_flight, h.drained, h.unread, h.accounted⟩

/-- Every item is accounted for in every run. -/
theorem of_trace {state : σ} {before : Bool} {cancelAt : Option Nat}
    (hrun : JobRun.Trace w c (.start state before cancelAt) events s) :
    Delivery s.cancelled events s := by
  induction hrun with
  | refl => exact start state before cancelAt
  | step _ hstep ih => exact ih.step hstep

/-- A job that is about to commit has received and written all there is. A reader that was stopped
or has broken down is excluded by the looks at both, and one that has failed by what was received.
-/
theorem complete (h : Delivery false events s) (hcontrol : s.control = .joining (.ok ()))
    (hreader : s.reader = .finished false) :
    ∃ stream, streamRead? events = some stream ∧ stream.EndsNormally ∧
      allReceived events = stream.items ∧ allAcknowledged events = stream.nonEmptyBatches := by
  obtain ⟨hqueue, -⟩ := h.drained hcontrol
  obtain ⟨hbatch, hwritten⟩ := h.in_flight [] (by simp [hcontrol, Control.inFlight?])
  have haccounted := h.accounted
  rw [hreader, hqueue, List.map_nil, List.append_nil] at haccounted
  obtain ⟨stream, hstream, -, hstopped | hbroken | ⟨e, hfailure⟩ | hitems⟩ := haccounted
  · simp [hcontrol, Control.hasLeft] at hstopped
  · cases hbroken
  · obtain ⟨b, hb⟩ := hbatch _ hfailure
    cases hb
  · refine ⟨stream, hstream, ?_, hitems.symm, ?_⟩
    · rwa [Stream.EndsNormally, hitems]
    · rw [Stream.nonEmptyBatches, hitems, ← hwritten, List.append_nil]

/-- What has been passed on are the first items of the stream. -/
theorem passed_prefix_stream (h : Delivery cancelled events s) {stream : Stream}
    (hread : streamRead? events = some stream) :
    allReceived events ++ s.queue.map ofResult <+: stream.items := by
  have haccounted := h.accounted
  have hbegun : s.reader ≠ .absent := by
    intro habsent
    rw [habsent, hread] at haccounted
    cases haccounted.1
  obtain ⟨stream', hstream, hpassed⟩ := haccounted.passed_prefix hbegun
  cases hread.symm.trans hstream
  exact hpassed

/-- What has been acknowledged are the first of the non-empty batches of the stream. -/
theorem acknowledged_prefix_stream (h : Delivery cancelled events s) :
    allAcknowledged events <+: (streamRead? events).elim [] Stream.nonEmptyBatches := by
  cases hread : streamRead? events with
  | none =>
      obtain ⟨-, hreceived, -⟩ := h.untouched hread
      simpa [hreceived] using h.acknowledged_prefix
  | some stream =>
      have hreceived : allReceived events <+: stream.items :=
        (List.prefix_append _ _).trans (h.passed_prefix_stream hread)
      exact h.acknowledged_prefix.trans (StreamItem.nonEmptyBatches_prefix hreceived)

/-- A step in which a commit is entered finds the job not cancelled, the stream read to its end, and
all its batches acknowledged. -/
theorem commit_step (h : Delivery s.cancelled events s) (hstep : s.Step w c more s')
    (hcommit : .committing ∈ more) :
    s.cancelled = false ∧ ∃ stream, streamRead? events = some stream ∧ stream.EndsNormally ∧
      allReceived events = stream.items ∧ allAcknowledged events = stream.nonEmptyBatches := by
  cases hstep with
  | @writer t seen hseen hmove =>
      have hwriter := JobRun.WriterStep.of_move hmove
      generalize (s.seeing seen).answerEvents c ++ t.entryEvents = entered at hwriter hcommit
      cases hwriter with
      | commit hcontrol hreader hcancelled =>
          change s.control = .joining (.ok ()) at hcontrol
          -- The look before the commit is no part of a wait, so it sees the job as it is.
          have hfresh : seen = s.cancelled := by simpa [hcontrol, Control.isSelecting] using hseen
          have huncancelled : s.cancelled = false := hfresh ▸ hcancelled
          rw [huncancelled] at h
          exact ⟨huncancelled, h.complete hcontrol hreader⟩
      | _ => simp at hcommit
  | _ => cases hcommit

/-- A job that has come to commit has received and written all there is. -/
theorem whole_of_trace {state : σ} {before : Bool} {cancelAt : Option Nat}
    (hrun : JobRun.Trace w c (.start state before cancelAt) events s)
    (hcommits : s.control.commits = true) :
    ∃ stream, streamRead? events = some stream ∧ stream.EndsNormally ∧
      allAcknowledged events = stream.nonEmptyBatches := by
  induction hrun with
  | refl => cases hcommits
  | @step t u events more hrun hstep ih =>
      have hquiet (h : t.control.commits = true) (hmore : allAcknowledged more = []) :
          ∃ stream, streamRead? (events ++ more) = some stream ∧ stream.EndsNormally ∧
            allAcknowledged (events ++ more) = stream.nonEmptyBatches := by
        obtain ⟨stream, hstream, hnormal, hall⟩ := ih h
        exact ⟨stream, by simp [hstream], hnormal, by simp [hmore, hall]⟩
      cases hstep with
      | @writer t' seen hseen hmove =>
          have hwriter := JobRun.WriterStep.of_move hmove
          have hcommit := (of_trace hrun).commit_step (.writer hseen hmove)
          generalize (t.seeing seen).answerEvents c ++ t'.entryEvents = more at *
          change t'.control.commits = true at hcommits
          cases hwriter with
          | commit =>
              obtain ⟨-, stream, hstream, hnormal, -, hall⟩ := hcommit (List.mem_singleton_self _)
              refine ⟨stream, by simp [hstream], hnormal, ?_⟩
              rw [JobEvent.allAcknowledged_append, hall]
              exact List.append_nil _
          | committed hcontrol =>
              change t.control = _ at hcontrol
              exact hquiet (by rw [hcontrol]; rfl) rfl
          | @sinkClosed outcome _ _ _ hcontrol | @sourceClosed outcome _ _ _ hcontrol =>
              change t.control = _ at hcontrol
              cases outcome with
              | ok receipt => exact hquiet (by rw [hcontrol]; rfl) rfl
              | error e => cases hcommits
          | emptyReceived hcontrol =>
              change t.control = _ at hcontrol
              change t.control.commits = true at hcommits
              rw [hcontrol] at hcommits
              cases hcommits
          | _ => cases hcommits
      | reader _ hmove =>
          refine hquiet ?_ rfl
          cases JobRun.ReaderStep.of_move hmove <;> exact hcommits
      | cancel | elapse => exact hquiet hcommits rfl

end Delivery

/-! ### Sinks that take whole batches -/

/-- A sink that takes a batch as a whole when it acknowledges it, and otherwise nothing of it. -/
structure Wiring.AllOrNothing {σ : Type} (w : Wiring σ) (held : σ → List Batch) : Prop where
  entered : ∀ time batch s, held (w.writeCall time batch s).state = held s
  acknowledged : ∀ time batch s t t' ack,
    (w.writeCall time batch s).finish t = (t', .ok ack) → held t' = held t ++ [batch]
  failed : ∀ time batch s t t' e,
    (w.writeCall time batch s).finish t = (t', .error e) → held t' = held t

namespace PendingCall

variable {σ α : Type} {call : PendingCall σ α} {what : String} {limit : Duration} {s t : σ}

/-- A call that ends well has not been given up. -/
theorem finish_of_conclude_ok {a : α} (h : call.conclude what limit s = (t, .ok a)) :
    call.finish s = (t, .ok a) := by
  unfold conclude at h
  split at h
  · cases h
  · exact h

/-- A call that ends badly has either been given up, and changed nothing at its end, or failed. -/
theorem finish_of_conclude_error {e : ConnectorError}
    (h : call.conclude what limit s = (t, .error e)) :
    t = s ∨ call.finish s = (t, .error e) := by
  unfold conclude at h
  split at h
  · cases h
    exact .inl rfl
  · exact .inr h

end PendingCall

/-- What a sink that takes whole batches holds when a write ends. -/
theorem Wiring.AllOrNothing.concluded {σ : Type} {w : Wiring σ} {held : σ → List Batch}
    (hw : w.AllOrNothing held) {batch : Batch} {call : PendingCall σ Acknowledgement}
    (hcall : ∃ time s, call.finish = (w.writeCall time batch s).finish) {what : String}
    {limit : Duration} {s t : σ} {answer : ConnectorResult Acknowledgement}
    (h : call.conclude what limit s = (t, answer)) :
    held t = held s ++ allAcknowledged [.written batch answer] := by
  obtain ⟨time, s₀, hfinish⟩ := hcall
  cases answer with
  | ok ack =>
      have hend := call.finish_of_conclude_ok h
      rw [hfinish] at hend
      exact hw.acknowledged _ _ _ _ _ _ hend
  | error e =>
      rw [show allAcknowledged [.written batch (.error e)] = [] from rfl, List.append_nil]
      rcases call.finish_of_conclude_error h with rfl | hend
      · rfl
      · rw [hfinish] at hend
        exact hw.failed _ _ _ _ _ _ hend

namespace JobRun

variable {σ : Type} {w : Wiring σ} {c : JobSettings} {events more : List JobEvent}
  {s s' : JobRun σ}

/-- A write that is pending was entered at the sink. -/
def WritePending (w : Wiring σ) (s : JobRun σ) : Prop :=
  ∀ batch budget call, s.control = .writing batch budget call →
    ∃ time state, call.finish = (w.writeCall time batch state).finish

/-- A write becomes pending by being entered. -/
theorem Step.writePending (hstep : Step w c s more s') (hs : s.WritePending w) :
    s'.WritePending w := by
  cases hstep with
  | @writer t seen hseen hmove =>
      have hwriter := WriterStep.of_move hmove
      generalize (s.seeing seen).answerEvents c ++ t.entryEvents = entered at hwriter
      intro batch budget call hcontrol
      change t.control = _ at hcontrol
      cases hwriter with
      | batchReceived | writeAgain =>
          cases hcontrol
          exact ⟨_, _, rfl⟩
      | emptyReceived hreceiving =>
          change s.control = _ at hcontrol
          rw [show s.control = .receiving from hreceiving] at hcontrol
          cases hcontrol
      | _ => cases hcontrol
  | reader hseen hmove =>
      cases ReaderStep.of_move hmove <;> exact hs
  | cancel => exact hs
  | elapse => exact hs

/-- In a step that moves batches, a sink that takes whole batches comes to hold what it
acknowledges. -/
theorem Step.held_eq {held : σ → List Batch} (hw : w.AllOrNothing held) (hs : s.WritePending w)
    (hstep : Step w c s more s') (hmore : ∀ e ∈ more, e.isTransfer = true) :
    held s'.state = held s.state ++ allAcknowledged more := by
  cases hstep with
  | @writer t seen hseen hmove =>
      have hwriter := WriterStep.of_move hmove
      generalize (s.seeing seen).answerEvents c ++ t.entryEvents = entered at hwriter hmore ⊢
      cases hwriter with
      | refuse | transferCancelled | failureReceived | emptyReceived | drained | writeCancelled =>
          exact (List.append_nil _).symm
      | batchReceived | writeAgain =>
          exact (hw.entered _ _ _).trans (List.append_nil _).symm
      | acknowledged hcontrol _ hanswer | writeRepeated hcontrol _ hanswer
      | writeGivenUp hcontrol _ hanswer =>
          exact hw.concluded (hs _ _ _ hcontrol) hanswer
      | _ => simp [JobEvent.isTransfer] at hmore
  | @reader t seen hseen hmove =>
      have hstate : t.state = s.state := by cases ReaderStep.of_move hmove <;> rfl
      exact (congrArg held hstate).trans (List.append_nil _).symm
  | cancel => exact (List.append_nil _).symm
  | elapse => exact (List.append_nil _).symm

theorem Trace.writePending {state : σ} {before : Bool} {cancelAt : Option Nat}
    (hrun : Trace w c (.start state before cancelAt) events s) : s.WritePending w := by
  induction hrun with
  | refl => intro _ _ _ h; cases h
  | step _ hstep ih => exact hstep.writePending ih

/-- In a run that moves batches, a sink that takes whole batches comes to hold what it
acknowledges. -/
theorem Trace.held_eq {held : σ → List Batch} (hw : w.AllOrNothing held) (hs : s.WritePending w)
    (hrun : Trace w c s more s') (hmore : ∀ e ∈ more, e.isTransfer = true) :
    s'.WritePending w ∧ held s'.state = held s.state ++ allAcknowledged more := by
  induction hrun with
  | refl => exact ⟨hs, (List.append_nil _).symm⟩
  | step _ hstep ih =>
      obtain ⟨hpending, hheld⟩ := ih fun e he => hmore e (List.mem_append_left _ he)
      have hlast := hstep.held_eq hw hpending fun e he => hmore e (List.mem_append_right _ he)
      refine ⟨hstep.writePending hpending, ?_⟩
      rw [hlast, hheld, JobEvent.allAcknowledged_append, List.append_assoc]

/-- A batch with one row, of no fields. -/
def oneRow : Batch := ⟨⟨[]⟩, [[]]⟩

/-- A source of one batch with one row, and a sink that keeps a list of batches and fails at the
first write. -/
def oneBatchWiring : Wiring (List Batch × Nat) where
  kind _ := "list"
  openCall _ _ s := .now s (.ok ())
  readCall _ s := .now s (.ok (.ofBatches [oneRow]))
  writeCall _ batch s :=
    { state := (s.1, s.2 + 1)
      delay := 0
      finish := fun t =>
        if s.2 = 0 then (t, .error ⟨.transient, "busy"⟩)
        else ((t.1 ++ [batch], t.2), .ok ⟨batch.size, 0⟩) }
  commitCall _ s := .now s (.ok ⟨s.1.length, none⟩)
  closeCall _ _ s := .now s (.ok ())
  asksToCancel _ := false

theorem oneBatchWiring_allOrNothing : oneBatchWiring.AllOrNothing Prod.fst where
  entered _ _ _ := rfl
  acknowledged time batch s t t' ack h := by
    simp only [oneBatchWiring] at h
    split at h <;> cases h
    rfl
  failed time batch s t t' e h := by
    simp only [oneBatchWiring] at h
    split at h <;> cases h
    rfl

/-- One repetition without delay, and room for one batch. -/
def oneBatchSettings : JobSettings where
  maxRetries := 1
  retryDelay _ := 0
  capacity := 1
  openLimit := ⟨1⟩
  writeLimit := ⟨1⟩
  commitLimit := ⟨1⟩

/-- At every moment of every run, the batches that the sink has acknowledged are the first of the
non-empty batches of the stream that was read. A commit is entered only when the job is found not
cancelled, the stream was read to its end without a failure, and all its non-empty batches have been
acknowledged. While batches are moved, a sink that takes whole batches comes to hold what it
acknowledges and nothing else. -/
theorem Trace.delivers_in_order {state : σ} {before : Bool} {cancelAt : Option Nat}
    (hrun : Trace w c (.start state before cancelAt) events s) :
    allAcknowledged events <+: (streamRead? events).elim [] Stream.nonEmptyBatches ∧
      (∀ more t, Step w c s more t → .committing ∈ more →
        s.cancelled = false ∧ ∃ stream, streamRead? events = some stream ∧ stream.EndsNormally ∧
          allReceived events = stream.items ∧
          allAcknowledged events = stream.nonEmptyBatches) ∧
      (∀ held : σ → List Batch, w.AllOrNothing held → ∀ more t, Trace w c s more t →
        (∀ e ∈ more, e.isTransfer = true) →
        held t.state = held s.state ++ allAcknowledged more) := by
  have hdelivery := Delivery.of_trace hrun
  refine ⟨hdelivery.acknowledged_prefix_stream,
    fun more t hstep hcommit => hdelivery.commit_step hstep hcommit, ?_⟩
  intro held hw more t hmoved hmore
  exact (hmoved.held_eq hw hrun.writePending hmore).2

/-- The one batch is written at the second attempt, while the reader has ended already, and a commit
follows. -/
theorem Trace.delivers_in_order_oneRow :
    ∃ events s more t last u,
      Trace oneBatchWiring oneBatchSettings (.start ([], 0) false none) events s ∧
      Trace oneBatchWiring oneBatchSettings s more t ∧ (∀ e ∈ more, e.isTransfer = true) ∧
      allAcknowledged (events ++ more) = [oneRow] ∧ t.state.1 = [oneRow] ∧
      Step oneBatchWiring oneBatchSettings t last u ∧ .committing ∈ last ∧
      (Stream.ofBatches [oneRow]).EndsNormally := by
  have hread := ((((Trace.refl (w := oneBatchWiring) (c := oneBatchSettings)
    (.start ([], 0) false none)).step (.writer (.inl rfl) rfl)).step (.writer (.inl rfl) rfl)).step
    (.writer (.inl rfl) rfl)).step (.writer (.inl rfl) rfl)
  have hafter {e : List JobEvent} {s : JobRun (List Batch × Nat)}
    (_ : Trace oneBatchWiring oneBatchSettings (.start ([], 0) false none) e s) :
      Trace oneBatchWiring oneBatchSettings s [] s := .refl s
  have hsent := ((hafter hread).step (.reader id rfl)).step (.reader id rfl)
  have hwriting := hsent.step (.writer (.inl rfl) rfl)
  have hended := hwriting.step (.reader id rfl)
  have hagain := (hended.step (.writer (.inl rfl) rfl)).step (.writer (.inl rfl) rfl)
  have hjoining := (hagain.step (.writer (.inl rfl) rfl)).step (.writer (.inl rfl) rfl)
  obtain ⟨-, -, hheld⟩ := hread.delivers_in_order
  have hlist := hheld Prod.fst oneBatchWiring_allOrNothing _ _ hjoining (List.all_eq_true.mp rfl)
  obtain ⟨-, hcomplete, -⟩ := (hread.trans hjoining).delivers_in_order
  obtain ⟨-, stream, hstream, hnormal, -⟩ :=
    hcomplete _ _ (.writer (.inl rfl) rfl) (List.mem_singleton.mpr rfl)
  cases hstream
  exact ⟨_, _, _, _, _, _, hread, hjoining, List.all_eq_true.mp rfl, rfl, hlist,
    .writer (.inl rfl) rfl, List.mem_singleton.mpr rfl, hnormal⟩

end JobRun

end BatchTransfer
