import BatchTransfer.Proofs.Job.Lifecycle

/-!
# Writes decide how a job ends

In a job that is not cancelled and whose source, openings and commit do not fail, only writes can
go wrong. Every non-empty batch is written until the sink acknowledges it, as often as the settings
allow for this one batch. `Tally` is the invariant: the answers to writes so far are those of the
batches that have been acknowledged, each after failures that could be repeated, and then those of
the batch at hand.
-/

namespace BatchTransfer

namespace JobEvent

/-- Whether an event is no failure of a source, of an opening or of a commit. Of a stream it is
asked that it holds batches only. -/
def GoesWell : JobEvent → Prop
  | opened _ (.error _) | read (.error _) | committed (.error _) => False
  | read (.ok stream) => stream.EndsNormally
  | _ => True

/-- The batch with which the sink is called. -/
def writing? : JobEvent → Option Batch
  | writing batch => some batch
  | _ => none

/-- The answer of the sink to a write, with the batch. -/
def written? : JobEvent → Option (Batch × ConnectorResult Acknowledgement)
  | written batch answer => some (batch, answer)
  | _ => none

/-- The batches with which the sink has been called, in order. -/
def allWriting (events : List JobEvent) : List Batch := events.filterMap writing?

/-- The answers of the sink to writes, in order, each with its batch. -/
def allWritten (events : List JobEvent) : List (Batch × ConnectorResult Acknowledgement) :=
  events.filterMap written?

@[simp]
theorem allWriting_append (events more : List JobEvent) :
    allWriting (events ++ more) = allWriting events ++ allWriting more := by
  simp [allWriting]

@[simp]
theorem allWritten_append (events more : List JobEvent) :
    allWritten (events ++ more) = allWritten events ++ allWritten more := by
  simp [allWritten]

theorem mem_of_streamRead? {events : List JobEvent} {stream : Stream}
    (h : streamRead? events = some stream) : .read (.ok stream) ∈ events := by
  obtain ⟨e, he, hstream⟩ := List.exists_of_findSome?_eq_some h
  cases e with
  | read answer =>
      cases answer with
      | ok s =>
          cases hstream
          exact he
      | error => cases hstream
  | _ => cases hstream

end JobEvent

open JobEvent (allReceived allAcknowledged streamRead? allWriting allWritten)
open StreamItem (nonEmptyBatches ofResult)

/-! ### The answers to the writes of a batch -/

/-- Whether an answer to a write is a failure. -/
def hasFailed (call : Batch × ConnectorResult Acknowledgement) : Bool :=
  match call.2 with
  | .ok _ => false
  | .error _ => true

/-- The answers to writes of a batch that all fail. -/
def failedWrites (batch : Batch) (errors : List ConnectorError) :
    List (Batch × ConnectorResult Acknowledgement) :=
  errors.map fun e => (batch, .error e)

/-- The answers to the writes of a batch that is acknowledged in the end. -/
def Delivered (maxRetries : Nat) (batch : Batch)
    (calls : List (Batch × ConnectorResult Acknowledgement)) : Prop :=
  ∃ errors ack, errors.length ≤ maxRetries ∧ (∀ e ∈ errors, e.isRetryable = true) ∧
    calls = failedWrites batch errors ++ [(batch, .ok ack)]

/-- The answers to the writes of a batch that is given up with a failure: one that may not be
repeated, or the first that may no longer be. -/
def GivenUp (maxRetries : Nat) (batch : Batch) (last : ConnectorError)
    (calls : List (Batch × ConnectorResult Acknowledgement)) : Prop :=
  ∃ errors, errors.length ≤ maxRetries ∧ (∀ e ∈ errors, e.isRetryable = true) ∧
    (last.isRetryable = true → errors.length = maxRetries) ∧
    calls = failedWrites batch errors ++ [(batch, .error last)]

/-- The answers to the writes of batches that are acknowledged one after the other. -/
inductive AllDelivered (maxRetries : Nat) :
    List Batch → List (Batch × ConnectorResult Acknowledgement) → Prop where
  | nil : AllDelivered maxRetries [] []
  | concat {batches calls batch more} (hbefore : AllDelivered maxRetries batches calls)
      (hlast : Delivered maxRetries batch more) :
      AllDelivered maxRetries (batches ++ [batch]) (calls ++ more)

@[simp]
theorem length_failedWrites (batch : Batch) (errors : List ConnectorError) :
    (failedWrites batch errors).length = errors.length := List.length_map ..

@[simp]
theorem countP_failedWrites (batch : Batch) (errors : List ConnectorError) :
    (failedWrites batch errors).countP hasFailed = errors.length := by
  rw [failedWrites, List.countP_map]
  exact List.countP_eq_length.mpr fun e he => rfl

namespace AllDelivered

variable {maxRetries : Nat} {batches : List Batch}
  {calls more : List (Batch × ConnectorResult Acknowledgement)}

/-- There is one call for each batch and one for each failure. -/
theorem length_eq (h : AllDelivered maxRetries batches calls) :
    calls.length = batches.length + calls.countP hasFailed := by
  induction h with
  | nil => rfl
  | concat _ hlast ih =>
      obtain ⟨errors, ack, -, -, rfl⟩ := hlast
      have hok (batch : Batch) : [(batch, Except.ok ack)].countP hasFailed = 0 := rfl
      simp only [List.length_append, List.countP_append, countP_failedWrites, hok,
        length_failedWrites, List.length_singleton]
      omega

/-- The last call has not failed. -/
theorem hasFailed_last {call : Batch × ConnectorResult Acknowledgement}
    (h : AllDelivered maxRetries batches (calls ++ [call])) : hasFailed call = false := by
  generalize hcalls : calls ++ [call] = all at h
  cases h with
  | nil => simp at hcalls
  | concat hbefore hlast =>
      obtain ⟨errors, ack, -, -, rfl⟩ := hlast
      rw [← List.append_assoc] at hcalls
      obtain ⟨-, hcall⟩ := List.append_inj' hcalls rfl
      cases hcall
      rfl

/-- What ends with a batch that is given up delivers no batches. -/
theorem not_givenUp {batch : Batch} {last : ConnectorError}
    (hlast : GivenUp maxRetries batch last more) :
    ¬ AllDelivered maxRetries batches (calls ++ more) := by
  obtain ⟨errors, -, -, -, rfl⟩ := hlast
  intro h
  rw [← List.append_assoc] at h
  cases h.hasFailed_last

end AllDelivered

/-! ### The invariant -/

/-- The failures of the batch at hand have all been such that the write may be repeated, and were
preceded by the writes of those that have been acknowledged. -/
def Repeating (maxRetries : Nat) (events : List JobEvent) (batch : Batch) (failures : Nat) : Prop :=
  ∃ calls errors, AllDelivered maxRetries (allAcknowledged events) calls ∧
    errors.length = failures ∧ (∀ e ∈ errors, e.isRetryable = true) ∧
    allWritten events = calls ++ failedWrites batch errors

/-- All batches of the stream have been written and acknowledged. -/
def AllWritten (maxRetries : Nat) (events : List JobEvent) : Prop :=
  AllDelivered maxRetries (allAcknowledged events) (allWritten events) ∧
    ∃ stream, streamRead? events = some stream ∧ allAcknowledged events = stream.nonEmptyBatches

/-- The job has failed at a batch that was given up, and has not been committed. -/
def FailsToWrite (kind : String) (maxRetries : Nat) (events : List JobEvent) (e : JobError) :
    Prop :=
  .committing ∉ events ∧ ∃ batch last attempts calls more,
    e = .sinkWrite kind attempts last ∧
      AllDelivered maxRetries (allAcknowledged events) calls ∧ GivenUp maxRetries batch last more ∧
      allWritten events = calls ++ more ∧
      allAcknowledged events ++ [batch] = nonEmptyBatches (allReceived events)

section Append

variable {kind : String} {maxRetries : Nat} {events more : List JobEvent}

/-- Where no write is answered, the batches that have been delivered stay the same. -/
theorem AllDelivered.append_events
    (h : AllDelivered maxRetries (allAcknowledged events) (allWritten events))
    (hwritten : allWritten more = []) (hacknowledged : allAcknowledged more = []) :
    AllDelivered maxRetries (allAcknowledged (events ++ more)) (allWritten (events ++ more)) := by
  simpa [hwritten, hacknowledged] using h

theorem AllWritten.append (h : AllWritten maxRetries events) (hwritten : allWritten more = [])
    (hacknowledged : allAcknowledged more = []) : AllWritten maxRetries (events ++ more) := by
  obtain ⟨hdelivered, stream, hread, hall⟩ := h
  exact ⟨hdelivered.append_events hwritten hacknowledged, stream, by simp [hread],
    by simpa [hacknowledged] using hall⟩

theorem FailsToWrite.append {e : JobError} (h : FailsToWrite kind maxRetries events e)
    (hcommit : .committing ∉ more) (hwritten : allWritten more = [])
    (hacknowledged : allAcknowledged more = []) (hreceived : allReceived more = []) :
    FailsToWrite kind maxRetries (events ++ more) e := by
  obtain ⟨hnever, batch, last, attempts, calls, after, he, hcalls, hafter, hwrites, hbatch⟩ := h
  refine ⟨fun hmem => ?_, batch, last, attempts, calls, after, he, ?_, hafter, ?_, ?_⟩
  · exact (List.mem_append.mp hmem).elim hnever hcommit
  · simpa [hacknowledged] using hcalls
  · simpa [hwritten] using hwrites
  · simpa [hacknowledged, hreceived] using hbatch

/-- When a write has been answered, no call is pending. -/
theorem answered_of_written {batch : Batch} (answer : ConnectorResult Acknowledgement)
    (h : allWriting events = (allWritten events).map Prod.fst ++ [batch]) :
    allWriting (events ++ [.written batch answer]) =
      (allWritten (events ++ [.written batch answer])).map Prod.fst := by
  have hnone : allWriting [.written batch answer] = [] := rfl
  have hone : allWritten [.written batch answer] = [(batch, answer)] := rfl
  simp [h, hnone, hone]

end Append

namespace Control

variable {σ : Type}

/-- The batch with which the sink has been called and to which it has not answered. -/
def pendingBatch : Control σ → List Batch
  | .writing batch _ _ => [batch]
  | _ => []

/-- Whether the job is bound to fail. -/
def hasFailed : Control σ → Bool
  | .joining (.error _) | .closing _ (.error _) _ | .ended (.error _) => true
  | _ => false

/-- What the answers to writes are when the writer comes to its control. -/
def Tallies (kind : String) (maxRetries : Nat) (events : List JobEvent) : Control σ → Prop
  | .writing batch budget _ | .writeBackoff batch budget _ =>
      Repeating maxRetries events batch budget.failures
  | .joining (.error e) | .closing _ (.error e) _ | .ended (.error e) =>
      FailsToWrite kind maxRetries events e
  | .committing _ | .closing _ (.ok _) _ | .ended (.ok _) => AllWritten maxRetries events
  | _ => AllDelivered maxRetries (allAcknowledged events) (allWritten events)

end Control

/-- The writes of a job are accounted for: every call but the pending one has been answered, what
has been counted is right, and the reader has not broken down. -/
structure Tally {σ : Type} (kind : String) (maxRetries : Nat) (events : List JobEvent)
    (s : JobRun σ) : Prop where
  answered : allWriting events = (allWritten events).map Prod.fst ++ s.control.pendingBatch
  batches : s.progress.batches = (allAcknowledged events).length
  retries : s.control.hasFailed = false →
    s.progress.retries = (allWritten events).countP hasFailed
  unbroken : s.reader ≠ .finished true
  answers : s.control.Tallies kind maxRetries events

namespace Delivery

variable {σ : Type} {cancelled : Bool} {events : List JobEvent} {s : JobRun σ}

/-- Where all goes well, the stream that has been read holds batches only. -/
theorem endsNormally {stream : Stream} (hwell : ∀ e ∈ events, e.GoesWell)
    (hread : streamRead? events = some stream) : stream.EndsNormally :=
  hwell _ (JobEvent.mem_of_streamRead? hread)

/-- Where all goes well, batches only have been passed on. -/
theorem passed_batches (h : Delivery cancelled events s) (hwell : ∀ e ∈ events, e.GoesWell)
    {item : StreamItem} (hitem : item ∈ allReceived events ++ s.queue.map ofResult) :
    ∃ b, item = .batch b := by
  cases hread : streamRead? events with
  | none =>
      obtain ⟨-, hreceived, hqueue⟩ := h.untouched hread
      simp [hreceived, hqueue] at hitem
  | some stream =>
      exact endsNormally hwell hread item ((h.passed_prefix_stream hread).subset hitem)

/-- Where all goes well, the next arrival is a batch. -/
theorem arrival_batch (h : Delivery cancelled events s) (hwell : ∀ e ∈ events, e.GoesWell)
    {stream rest : Stream} {since : Nat} {a : Arrival} (hreader : s.reader = .pulling stream since)
    (hnext : stream.next? = some (a, rest)) : ∃ b, a.item = .batch b := by
  have haccounted := h.accounted
  rw [hreader] at haccounted
  obtain ⟨whole, hread, hitems⟩ := haccounted
  refine endsNormally hwell hread a.item ?_
  rw [hitems, Stream.items_of_next? hnext]
  simp

end Delivery

namespace Tally

variable {σ : Type} {w : Wiring σ} {c : JobSettings} {kind : String} {maxRetries : Nat}
  {events more : List JobEvent} {s s' : JobRun σ}

theorem start (state : σ) (before : Bool) (cancelAt : Option Nat) :
    Tally kind maxRetries [] (.start state before cancelAt) where
  answered := rfl
  batches := rfl
  retries := fun _ => rfl
  unbroken := nofun
  answers := .nil

/-- A move with which no write is entered or answered keeps the tally. -/
theorem quiet (h : Tally kind maxRetries events s) (hwriting : allWriting more = [])
    (hwritten : allWritten more = []) (hacknowledged : allAcknowledged more = [])
    (hpending : s'.control.pendingBatch = s.control.pendingBatch)
    (hfailed : s'.control.hasFailed = s.control.hasFailed)
    (hbatches : s'.progress.batches = s.progress.batches)
    (hretries : s'.progress.retries = s.progress.retries) (hreader : s'.reader ≠ .finished true)
    (hanswers : s'.control.Tallies kind maxRetries (events ++ more)) :
    Tally kind maxRetries (events ++ more) s' where
  answered := by simpa [hwriting, hwritten, hpending] using h.answered
  batches := by simpa [hacknowledged, hbatches] using h.batches
  retries := by simpa [hfailed, hwritten, hretries] using h.retries
  unbroken := hreader
  answers := hanswers

/-- A move of the reader keeps the tally. -/
theorem reader_step {cancelled : Bool} (h : Tally kind maxRetries events s)
    (hdelivery : Delivery cancelled events s) (hwell : ∀ e ∈ events, e.GoesWell)
    (hstep : s.ReaderStep c s') :
    Tally kind maxRetries events s' := by
  have hkept {t : JobRun σ} (hcontrol : t.control = s.control) (hprogress : t.progress = s.progress)
      (hreader : t.reader ≠ .finished true) : Tally kind maxRetries events t := by
    obtain ⟨hanswered, hbatches, hretries, -, hanswers⟩ := h
    rw [← hcontrol] at hanswered hretries hanswers
    rw [← hprogress] at hbatches hretries
    exact ⟨hanswered, hbatches, hretries, hreader, hanswers⟩
  cases hstep with
  | stopped | exhausted => exact hkept rfl rfl nofun
  | @pulled stream since a rest hreader hnext =>
      obtain ⟨b, hb⟩ := hdelivery.arrival_batch hwell hreader hnext
      exact hkept rfl rfl (by simp [JobRun.afterArrival, hb])
  | @sent item rest hreader =>
      exact hkept rfl rfl (by cases item <;> simp [JobRun.afterSending])

/-- A move of the writer keeps the tally, where all goes well but writes. -/
theorem writer_step (h : Tally (w.kind .sink) c.maxRetries events s) (hready : s.Ready c)
    (hledger : Ledger c.maxRetries events s.control) (hdelivery : Delivery false events s)
    (hwell : ∀ e ∈ events ++ more, e.GoesWell) (hcancelled : s.cancelled = false)
    (hstep : s.WriterStep w c more s') : Tally (w.kind .sink) c.maxRetries (events ++ more) s' := by
  have hbefore : ∀ e ∈ events, e.GoesWell := fun e he => hwell e (List.mem_append_left _ he)
  have hmore : ∀ e ∈ more, e.GoesWell := fun e he => hwell e (List.mem_append_right _ he)
  -- Moves that answer to a cancellation or to a failure of anything but a write are ruled out.
  cases hstep with
  | refuse _ hstop | openCancelled _ hstop | transferCancelled _ hstop | writeCancelled _ hstop
  | joinedCancelled _ _ hstop =>
      rw [hcancelled] at hstop
      cases hstop
  | openRepeated | openGivenUp | readFailed => exact (hmore _ List.mem_cons_self).elim
  | failureReceived _ _ hqueue =>
      obtain ⟨b, hb⟩ := hdelivery.passed_batches hbefore
        (List.mem_append_right _ (by rw [hqueue]; exact List.mem_cons_self))
      cases hb
  | joinedBroken _ hreader => exact absurd hreader h.unbroken
  | begin hcontrol | sourceOpened hcontrol | sinkOpened hcontrol | openAgain hcontrol
  | drained hcontrol =>
      have hanswers := h.answers
      rw [hcontrol] at hanswers
      exact h.quiet rfl rfl rfl (by rw [hcontrol]; rfl) (by rw [hcontrol]; rfl) rfl rfl h.unbroken
        (hanswers.append_events rfl rfl)
  | readStarted hcontrol =>
      have hanswers := h.answers
      rw [hcontrol] at hanswers
      exact h.quiet rfl rfl rfl (by rw [hcontrol]; rfl) (by rw [hcontrol]; rfl) rfl rfl (by simp)
        (hanswers.append_events rfl rfl)
  | emptyReceived hcontrol =>
      have hanswers := h.answers
      rw [hcontrol] at hanswers
      refine h.quiet rfl rfl rfl rfl rfl rfl rfl h.unbroken ?_
      change s.control.Tallies _ _ _
      rw [hcontrol]
      exact hanswers.append_events rfl rfl
  | @batchReceived batch rest hcontrol =>
      obtain ⟨hanswered, hbatches, hretries, hunbroken, hanswers⟩ := h
      rw [hcontrol] at hanswered hretries hanswers
      have hwriting : allWriting [.received (.ok batch), .writing batch] = [batch] := rfl
      have hwritten : allWritten [.received (.ok batch), .writing batch] = [] := rfl
      have hacknowledged : allAcknowledged [.received (.ok batch), .writing batch] = [] := rfl
      refine ⟨?_, ?_, fun _ => ?_, hunbroken, allWritten events, [], ?_, rfl, by simp, ?_⟩
      · simp [hwriting, hwritten, hanswered, Control.pendingBatch, JobRun.beginWrite]
      · simpa [hacknowledged, JobRun.beginWrite, JobProgress.countRead] using hbatches
      · simpa [hwritten, JobRun.beginWrite, JobProgress.countRead] using hretries rfl
      · simpa [hacknowledged] using (show AllDelivered _ _ _ from hanswers)
      · simp [hwritten, failedWrites]
  | @acknowledged batch budget call state ack hcontrol =>
      obtain ⟨-, hbudget⟩ := hready.budget budget (by rw [hcontrol]; rfl)
      obtain ⟨hanswered, hbatches, hretries, hunbroken, hanswers⟩ := h
      rw [hcontrol] at hanswered hretries hanswers
      obtain ⟨calls, errors, hcalls, hlength, hrepeat, hwrites⟩ := hanswers
      have hone : allWritten [.written batch (.ok ack)] = [(batch, .ok ack)] := rfl
      have hacknowledged : allAcknowledged [.written batch (.ok ack)] = [batch] := rfl
      refine ⟨?_, ?_, fun _ => ?_, hunbroken, ?_⟩
      · rw [answered_of_written _ hanswered]
        exact (List.append_nil _).symm
      · simpa [hacknowledged, JobProgress.countWritten] using hbatches
      · simpa [hone, hasFailed, JobProgress.countWritten] using hretries rfl
      · -- The failures before were within the budget, and this answer completes the batch.
        have hdelivered : Delivered c.maxRetries batch _ :=
          ⟨errors, ack, hlength ▸ hbudget, hrepeat, rfl⟩
        have hall := hcalls.concat hdelivered
        rw [← List.append_assoc, ← hwrites] at hall
        simpa [Control.Tallies, hone, hacknowledged] using hall
  | @writeRepeated batch budget call state e hcontrol _ _ hretryable =>
      obtain ⟨hanswered, hbatches, hretries, hunbroken, hanswers⟩ := h
      rw [hcontrol] at hanswered hretries hanswers
      obtain ⟨calls, errors, hcalls, hlength, hrepeat, hwrites⟩ := hanswers
      have hone : allWritten [.written batch (.error e)] = [(batch, .error e)] := rfl
      have hacknowledged : allAcknowledged [.written batch (.error e)] = [] := rfl
      refine ⟨?_, ?_, fun _ => ?_, hunbroken, calls, errors ++ [e], ?_, ?_, ?_, ?_⟩
      · rw [answered_of_written _ hanswered]
        exact (List.append_nil _).symm
      · simpa [hacknowledged, JobProgress.countRetry] using hbatches
      · simpa [hone, hasFailed, JobProgress.countRetry] using hretries rfl
      · simpa [hacknowledged] using hcalls
      · simp [hlength, RetryBudget.spend]
      · simpa [or_imp, forall_and, hretryable] using hrepeat
      · simp [hone, hwrites, failedWrites]
  | @writeGivenUp batch budget call state e attempts hcontrol _ _ hfinal =>
      obtain ⟨hmax, hbudget⟩ := hready.budget budget (by rw [hcontrol]; rfl)
      obtain ⟨-, hbatch⟩ := hdelivery.in_flight [batch] (by rw [hcontrol]; rfl)
      obtain ⟨hanswered, hbatches, -, hunbroken, hanswers⟩ := h
      rw [hcontrol] at hanswered hanswers
      obtain ⟨calls, errors, hcalls, hlength, hrepeat, hwrites⟩ := hanswers
      have hone : allWritten [.written batch (.error e)] = [(batch, .error e)] := rfl
      have hacknowledged : allAcknowledged [.written batch (.error e)] = [] := rfl
      have hreceived : allReceived [.written batch (.error e)] = [] := rfl
      -- A failure that may be repeated is the last only when the budget is spent.
      have hexhausted (hretryable : e.isRetryable = true) : errors.length = c.maxRetries := by
        have hspent := of_decide_eq_false (hfinal hretryable)
        simp only [RetryBudget.spend] at hspent
        omega
      have hnever : .committing ∉ events := fun hmem => by
        have hlate := hledger.within _ hmem
        rw [hcontrol] at hlate
        exact absurd hlate (Nat.not_succ_le_self 3)
      refine ⟨?_, ?_, by simp [Control.hasFailed], hunbroken, by simp [hnever], batch, e, attempts,
        calls, failedWrites batch errors ++ [(batch, .error e)], rfl, ?_,
        ⟨errors, hlength ▸ hbudget, hrepeat, hexhausted, rfl⟩, ?_, ?_⟩
      · rw [answered_of_written _ hanswered]
        exact (List.append_nil _).symm
      · simpa [hacknowledged] using hbatches
      · simpa [hacknowledged] using hcalls
      · simp [hone, hwrites]
      · simpa [hacknowledged, hreceived] using hbatch
  | @writeAgain batch budget due hcontrol =>
      obtain ⟨hanswered, hbatches, hretries, hunbroken, hanswers⟩ := h
      rw [hcontrol] at hanswered hretries hanswers
      have hwriting : allWriting [.writing batch] = [batch] := rfl
      have hwritten : allWritten [.writing batch] = [] := rfl
      have hacknowledged : allAcknowledged [.writing batch] = [] := rfl
      refine ⟨?_, ?_, fun _ => ?_, hunbroken, ?_⟩
      · simp [hwriting, hwritten, hanswered, Control.pendingBatch, JobRun.beginWrite]
      · simpa [hacknowledged, JobRun.beginWrite] using hbatches
      · simpa [hwritten, JobRun.beginWrite] using hretries rfl
      · simpa [Control.Tallies, Repeating, JobRun.beginWrite, hwritten, hacknowledged] using
          hanswers
  | joinedAfterFailure hcontrol =>
      have hanswers := h.answers
      rw [hcontrol] at hanswers
      exact h.quiet rfl rfl rfl (by rw [hcontrol]; rfl) (by rw [hcontrol]; rfl) rfl rfl h.unbroken
        (FailsToWrite.append hanswers (by simp) rfl rfl rfl)
  | commit hcontrol hreader =>
      obtain ⟨stream, hread, -, -, hall⟩ := hdelivery.complete hcontrol hreader
      have hanswers := h.answers
      rw [hcontrol] at hanswers
      exact h.quiet rfl rfl rfl (by rw [hcontrol]; rfl) (by rw [hcontrol]; rfl) rfl rfl h.unbroken
        (AllWritten.append ⟨hanswers, stream, hread, hall⟩ rfl rfl)
  | @committed call state answer hcontrol =>
      have hanswers := h.answers
      rw [hcontrol] at hanswers
      cases answer with
      | error e => exact (hmore _ List.mem_cons_self).elim
      | ok receipt =>
          exact h.quiet rfl rfl rfl (by rw [hcontrol]; rfl) (by rw [hcontrol]; rfl) rfl rfl
            h.unbroken (AllWritten.append hanswers rfl rfl)
  | @sinkClosed outcome _ _ _ hcontrol | @sourceClosed outcome _ _ _ hcontrol =>
      have hanswers := h.answers
      rw [hcontrol] at hanswers
      cases outcome with
      | error e =>
          exact h.quiet rfl rfl rfl (by rw [hcontrol]; rfl) (by rw [hcontrol]; rfl) rfl rfl
            h.unbroken (FailsToWrite.append hanswers (by simp) rfl rfl rfl)
      | ok receipt =>
          exact h.quiet rfl rfl rfl (by rw [hcontrol]; rfl) (by rw [hcontrol]; rfl) rfl rfl
            h.unbroken (AllWritten.append hanswers rfl rfl)

/-- The look of the writer at the job is no part of the tally. -/
theorem seeing (h : Tally kind maxRetries events s) (seen : Bool) :
    Tally kind maxRetries events (s.seeing seen) :=
  ⟨h.answered, h.batches, h.retries, h.unbroken, h.answers⟩

/-- A step of a job that is not cancelled keeps the tally, where all goes well but writes. -/
theorem step (h : Tally (w.kind .sink) c.maxRetries events s) (hready : s.Ready c)
    (hledger : Ledger c.maxRetries events s.control) (hdelivery : Delivery s.cancelled events s)
    (hwell : ∀ e ∈ events ++ more, e.GoesWell) (hcancelled : s'.cancelled = false)
    (hstep : s.Step w c more s') : Tally (w.kind .sink) c.maxRetries (events ++ more) s' := by
  have hbefore : ∀ e ∈ events, e.GoesWell := fun e he => hwell e (List.mem_append_left _ he)
  cases hstep with
  | @writer t seen hseen hmove =>
      have hopen : s.cancelled = false := by
        simp only [JobRun.seeing, Bool.or_eq_false_iff] at hcancelled
        exact hcancelled.2
      have hsees : seen = false := hseen.elim (fun h => h.trans hopen) And.left
      rw [hopen] at hdelivery
      exact ((h.seeing seen).writer_step (hready.seeing seen) hledger (hdelivery.seeing seen) hwell
        hsees (.of_move hmove)).seeing _
  | @reader t seen hseen hmove =>
      rw [List.append_nil]
      exact ((h.seeing seen).reader_step (hdelivery.seeing seen) hbefore (.of_move hmove)).seeing _
  | cancel => cases hcancelled
  | elapse =>
      rw [List.append_nil]
      exact ⟨h.answered, h.batches, h.retries, h.unbroken, h.answers⟩

theorem cancelled_of_step (hstep : s.Step w c more s') (hcancelled : s'.cancelled = false) :
    s.cancelled = false := by
  cases hstep with
  | writer hseen hmove =>
      simp only [JobRun.seeing, Bool.or_eq_false_iff] at hcancelled
      exact hcancelled.2
  | reader | elapse => exact hcancelled
  | cancel => cases hcancelled

/-- The tally is kept in every run of a job that is not cancelled, where all goes well but writes.
-/
theorem of_trace {state : σ} {before : Bool} {cancelAt : Option Nat}
    (hrun : JobRun.Trace w c (.start state before cancelAt) events s)
    (hwell : ∀ e ∈ events, e.GoesWell) (hcancelled : s.cancelled = false) :
    Tally (w.kind .sink) c.maxRetries events s := by
  induction hrun with
  | refl => exact start state before cancelAt
  | step hrun hstep ih =>
      have hopen := cancelled_of_step hstep hcancelled
      obtain ⟨hready, hledger⟩ := Ledger.of_trace hrun
      exact (ih (fun e he => hwell e (List.mem_append_left _ he)) hopen).step hready hledger
        (.of_trace hrun) hwell hcancelled hstep

end Tally

/-! ### The outcome -/

/-- How the answers to writes decide about the result of a job, given the non-empty batches of the
stream that was read. The job completes just if all of them have been delivered; if not, it fails
at the first that is given up, which is the last to be written. -/
structure WritesDecide {α : Type} (kind : String) (maxRetries : Nat) (batches : List Batch)
    (events : List JobEvent) (progress : JobProgress) (result : JobResult α) : Prop where
  answered : allWriting events = (allWritten events).map Prod.fst
  completes_iff : (∃ a, result = .ok a) ↔ AllDelivered maxRetries batches (allWritten events)
  acknowledged : (∃ a, result = .ok a) → allAcknowledged events = batches
  counted : (∃ a, result = .ok a) →
    progress.retries = (allWritten events).countP hasFailed ∧ progress.batches = batches.length ∧
      (allWriting events).length = progress.batches + progress.retries
  fails : ∀ e, result = .error e → .committing ∉ events ∧ ∃ batch rest last attempts calls more,
    e = .sinkWrite kind attempts last ∧
      batches = allAcknowledged events ++ batch :: rest ∧
      AllDelivered maxRetries (allAcknowledged events) calls ∧ GivenUp maxRetries batch last more ∧
      allWritten events = calls ++ more

namespace WritesDecide

variable {α β : Type} {kind : String} {maxRetries : Nat} {batches : List Batch}
  {events : List JobEvent} {progress progress' : JobProgress} {result : JobResult α}
  {result' : JobResult β}

/-- What has been decided does not depend on what else a completed job answers. -/
theorem congr (h : WritesDecide kind maxRetries batches events progress result)
    (hok : (∃ a, result' = .ok a) ↔ ∃ a, result = .ok a)
    (herror : ∀ e, result' = .error e → result = .error e)
    (hretries : progress'.retries = progress.retries)
    (hbatches : progress'.batches = progress.batches) :
    WritesDecide kind maxRetries batches events progress' result' where
  answered := h.answered
  completes_iff := hok.trans h.completes_iff
  acknowledged := fun hresult => h.acknowledged (hok.mp hresult)
  counted := fun hresult => by
    rw [hretries, hbatches]
    exact h.counted (hok.mp hresult)
  fails := fun e he => h.fails e (herror e he)

theorem of_ok {a : α} {stream : Stream} {σ : Type} {s : JobRun σ}
    (htally : Tally kind maxRetries events s) (hended : s.control.pendingBatch = [])
    (hopen : s.control.hasFailed = false)
    (hdelivered : AllDelivered maxRetries (allAcknowledged events) (allWritten events))
    (hall : allAcknowledged events = stream.nonEmptyBatches) :
    WritesDecide kind maxRetries stream.nonEmptyBatches events s.progress (.ok a) := by
  have hanswered := htally.answered
  rw [hended, List.append_nil] at hanswered
  have hretries := htally.retries hopen
  have hbatches := htally.batches
  have hlength := hdelivered.length_eq
  rw [hall] at hbatches hdelivered hlength
  refine ⟨hanswered, ⟨fun _ => hdelivered, fun _ => ⟨a, rfl⟩⟩, fun _ => hall,
    fun _ => ⟨hretries, hbatches, ?_⟩, nofun⟩
  rw [hanswered, List.length_map, hlength, hbatches, hretries]

theorem of_error {e : JobError} {stream : Stream} {σ : Type} {s : JobRun σ} {cancelled : Bool}
    (htally : Tally kind maxRetries events s) (hended : s.control.pendingBatch = [])
    (hdelivery : Delivery cancelled events s) (hread : streamRead? events = some stream)
    (hfails : FailsToWrite kind maxRetries events e) :
    WritesDecide kind maxRetries stream.nonEmptyBatches events progress
      (.error e : JobResult α) := by
  have hanswered := htally.answered
  rw [hended, List.append_nil] at hanswered
  obtain ⟨hnever, batch, last, attempts, calls, more, he, hcalls, hmore, hwrites, hbatch⟩ := hfails
  -- What has been received is a beginning of the stream, and the batch given up came last in it.
  have hprefix : allReceived events <+: stream.items :=
    (List.prefix_append _ _).trans (hdelivery.passed_prefix_stream hread)
  obtain ⟨rest, hrest⟩ := StreamItem.nonEmptyBatches_prefix hprefix
  rw [← hbatch] at hrest
  have hbatches : stream.nonEmptyBatches = allAcknowledged events ++ batch :: rest := by
    rw [Stream.nonEmptyBatches, ← hrest, List.append_assoc, List.singleton_append]
  refine ⟨hanswered, ⟨by simp, fun hall => ?_⟩, by simp, by simp, fun e' he' => ?_⟩
  · rw [hwrites] at hall
    exact absurd hall (AllDelivered.not_givenUp hmore)
  · cases he'
    exact ⟨hnever, batch, rest, last, attempts, calls, more, he, hbatches, hcalls, hmore, hwrites⟩

/-- How the writes have decided at the end of a run. -/
theorem of_trace {σ : Type} {w : Wiring σ} {c : JobSettings} {state : σ} {before : Bool}
    {cancelAt : Option Nat} {s : JobRun σ} {outcome : JobResult CommitReceipt}
    (hrun : JobRun.Trace w c (.start state before cancelAt) events s)
    (houtcome : s.outcome? = some outcome) (hcancelled : s.cancelled = false)
    (hwell : ∀ e ∈ events, e.GoesWell) :
    ∃ stream, streamRead? events = some stream ∧
      WritesDecide (w.kind .sink) c.maxRetries stream.nonEmptyBatches events s.progress
        outcome := by
  have htally := Tally.of_trace hrun hwell hcancelled
  have hdelivery := Delivery.of_trace hrun
  have hended : s.control = .ended outcome := JobRun.outcome?_eq_some_iff.mp houtcome
  have hpending : s.control.pendingBatch = [] := by rw [hended]; rfl
  have hanswers := htally.answers
  rw [hended] at hanswers
  cases outcome with
  | ok receipt =>
      obtain ⟨hdelivered, stream, hread, hall⟩ := hanswers
      exact ⟨stream, hread, of_ok htally hpending (by rw [hended]; rfl) hdelivered hall⟩
  | error e =>
      cases hread : streamRead? events with
      | none =>
          -- A job that has received nothing cannot have failed to write.
          obtain ⟨-, batch, -, -, -, -, -, -, -, -, hbatch⟩ := hanswers
          obtain ⟨-, hreceived, -⟩ := hdelivery.untouched hread
          simp [hreceived] at hbatch
      | some stream => exact ⟨stream, rfl, of_error htally hpending hdelivery hread hanswers⟩

end WritesDecide

namespace Host

/-- In a job that is not cancelled and in which all goes well but writes, the answers to writes
decide how it ends: the job completes just if every non-empty batch, in order, was acknowledged
after at most as many failures, all of which could be repeated, as there may be repetitions. The
report then counts these failures and batches, and there were no more calls. Otherwise the job
fails with the last failure of the first batch for which this does not hold; nothing is written or
committed after that. So it is for any connectors, and for those of a plan, whose run that is
executed is one of those meant. -/
theorem writes_decide (h : Host) (registry : ConnectorRegistry) (settings : JobSettings)
    (plan : Plan) (cancellation : Cancellation) :
    (∀ {σ : Type} (w : Wiring σ) (state : σ) (before : Bool) (cancelAt : Option Nat)
      (events : List JobEvent) (s : JobRun σ) (outcome : JobResult CommitReceipt),
      JobRun.Trace w settings (.start state before cancelAt) events s →
      s.outcome? = some outcome → s.cancelled = false → (∀ e ∈ events, e.GoesWell) →
        ∃ stream, streamRead? events = some stream ∧
          WritesDecide (w.kind .sink) settings.maxRetries stream.nonEmptyBatches events s.progress
            outcome) ∧
      ∀ site, h.makeSite registry plan = .ok site →
        (∃ events s, JobRun.Trace (JobSite.wiring (siteKind site)) settings
          (.start site cancellation.before cancellation.at?) events s ∧ s.hasEnded = true ∧
          h.runPlan registry settings plan cancellation =
            concludeJob registry plan h.nextRun s) ∧
        ∀ events s, JobRun.Trace (JobSite.wiring (siteKind site)) settings
          (.start site cancellation.before cancellation.at?) events s →
        s.hasEnded = true → s.cancelled = false → (∀ e ∈ events, e.GoesWell) →
          let job := concludeJob registry plan h.nextRun s
          ∃ stream, streamRead? events = some stream ∧
            WritesDecide site.sink.kind settings.maxRetries stream.nonEmptyBatches events
              job.progress job.result ∧
            ∀ report, job.result = .ok report → report.progress = job.progress := by
  refine ⟨fun w state before cancelAt events s outcome => WritesDecide.of_trace,
    fun site hsite => ⟨?_, fun events s hrun hended hcancelled hwell => ?_⟩⟩
  · obtain ⟨events, hrun⟩ := JobRun.trace_finish (w := JobSite.wiring (siteKind site))
      (c := settings) (.start site cancellation.before cancellation.at?)
    exact ⟨events, _, hrun, JobRun.hasEnded_finish _ _ _, by rw [runPlan, hsite]⟩
  · obtain ⟨outcome, hcontrol⟩ := JobRun.hasEnded_iff.mp hended
    have houtcome := JobRun.outcome?_eq_some_iff.mpr hcontrol
    obtain ⟨stream, hread, hdecide⟩ := WritesDecide.of_trace hrun houtcome hcancelled hwell
    refine ⟨stream, hread, ?_⟩
    simp only [concludeJob, houtcome]
    cases outcome with
    | ok receipt =>
        refine ⟨hdecide.congr ⟨fun _ => ⟨_, rfl⟩, fun _ => ⟨_, rfl⟩⟩ nofun rfl rfl, ?_⟩
        rintro report ⟨⟩
        rfl
    | error e => exact ⟨hdecide.congr ⟨nofun, nofun⟩ (fun e he => by cases he; rfl) rfl rfl, nofun⟩

/-- A host with a script of one batch, whose first write fails. -/
def busyHost : Host :=
  { new [] with
    stage :=
      { script :=
          { items := [(0, .rows [.ofFields []])], writes := [some ⟨.transient, "busy"⟩] } } }

/-- The registry of the scripted connectors alone. -/
def busyRegistry : ConnectorRegistry :=
  Registry.empty
  |>.addSource "script" ⟨.new "script", fun _ _ => .ok (.scripted .all)⟩
  |>.addSink "script" ⟨.new "script", fun _ _ => .ok .scripted⟩

/-- A plan of these. -/
def busyPlan : Plan := ⟨⟨"script", .empty⟩, ⟨"script", .empty⟩, none⟩

/-- The connectors of that plan, with their host. -/
def busySite : JobSite := ⟨.scripted .all, .scripted, { busyHost with nextRun := ⟨1⟩ }⟩

/-- Settings without repetition. -/
def busySettings : JobSettings := { JobRun.oneBatchSettings with maxRetries := 0 }

/-- With one repetition, the one batch is delivered at the second attempt and the report counts
both; without, the job fails at this batch. -/
theorem writes_decide_busy :
    (∃ events s report stream, JobRun.Trace (JobSite.wiring (siteKind busySite))
        JobRun.oneBatchSettings (.start busySite false none) events s ∧
      (concludeJob busyRegistry busyPlan ⟨0⟩ s).result = .ok report ∧
      report.progress.retries = 1 ∧ report.progress.batches = 1 ∧
      (allWriting events).length = 2 ∧ streamRead? events = some stream ∧
      AllDelivered 1 stream.nonEmptyBatches (allWritten events)) ∧
    ∃ events s, JobRun.Trace (JobSite.wiring (siteKind busySite)) busySettings
        (.start busySite false none) events s ∧
      (concludeJob busyRegistry busyPlan ⟨0⟩ s).result =
        .error (.sinkWrite "script" 1 ⟨.transient, "busy"⟩) ∧
      .committing ∉ events ∧ allAcknowledged events = [] := by
  have hsite : busyHost.makeSite busyRegistry busyPlan = .ok busySite := rfl
  have hnormal : Stream.EndsNormally (.listed [⟨0, .batch JobRun.oneRow⟩]) := by
    rw [Stream.EndsNormally, Stream.items_of_next? rfl, Stream.items_of_next?_eq_none rfl]
    simp
  refine ⟨?_, ?_⟩
  · obtain ⟨-, hplan⟩ := writes_decide busyHost busyRegistry JobRun.oneBatchSettings busyPlan {}
    obtain ⟨-, hruns⟩ := hplan busySite hsite
    have hread := ((((JobRun.Trace.refl (w := JobSite.wiring (siteKind busySite))
      (c := JobRun.oneBatchSettings) (.start busySite false none)).step
        (.writer (.inl rfl) rfl)).step (.writer (.inl rfl) rfl)).step (.writer (.inl rfl) rfl)).step
        (.writer (.inl rfl) rfl)
    have hwriting := ((hread.step (.reader id rfl)).step (.reader id rfl)).step
      (.writer (.inl rfl) rfl)
    have hended := hwriting.step (.reader id rfl)
    have hagain := (hended.step (.writer (.inl rfl) rfl)).step (.writer (.inl rfl) rfl)
    have hcommitting := ((hagain.step (.writer (.inl rfl) rfl)).step (.writer (.inl rfl) rfl)).step
      (.writer (.inl rfl) rfl)
    have hclosed := ((hcommitting.step (.writer (.inl rfl) rfl)).step
      (.writer (.inl rfl) rfl)).step (.writer (.inl rfl) rfl)
    have hwell : ∀ e ∈ [.opening .source, .opened .source (.ok ()), .opening .sink,
        .opened .sink (.ok ()), .reading, .read (.ok (.listed [⟨0, .batch JobRun.oneRow⟩])),
        .received (.ok JobRun.oneRow), .writing JobRun.oneRow,
        .written JobRun.oneRow (.error ⟨.transient, "busy"⟩), .writing JobRun.oneRow,
        .written JobRun.oneRow (.ok ⟨1, Rehearsal.Stage.bytesPerWrite⟩), .committing,
        .committed (.ok ⟨0, none⟩), .closing .sink, .closed .sink, .closing .source,
        .closed .source], JobEvent.GoesWell e := by
      simpa [JobEvent.GoesWell] using hnormal
    obtain ⟨stream, hstream, hdecide, -⟩ := hruns _ _ hclosed rfl rfl hwell
    have hdelivered := hdecide.completes_iff.mp ⟨_, rfl⟩
    exact ⟨_, _, _, stream, hclosed, rfl, rfl, rfl, rfl, hstream, hdelivered⟩
  · obtain ⟨-, hplan⟩ := writes_decide busyHost busyRegistry busySettings busyPlan {}
    obtain ⟨-, hruns⟩ := hplan busySite hsite
    have hread := ((((JobRun.Trace.refl (w := JobSite.wiring (siteKind busySite))
      (c := busySettings) (.start busySite false none)).step
        (.writer (.inl rfl) rfl)).step (.writer (.inl rfl) rfl)).step (.writer (.inl rfl) rfl)).step
        (.writer (.inl rfl) rfl)
    have hwriting := ((hread.step (.reader id rfl)).step (.reader id rfl)).step
      (.writer (.inl rfl) rfl)
    have hgivenUp := (hwriting.step (.writer (.inl rfl) rfl)).step (.reader id rfl)
    have hclosed := ((hgivenUp.step (.writer (.inl rfl) rfl)).step (.writer (.inl rfl) rfl)).step
      (.writer (.inl rfl) rfl)
    have hwell : ∀ e ∈ [.opening .source, .opened .source (.ok ()), .opening .sink,
        .opened .sink (.ok ()), .reading, .read (.ok (.listed [⟨0, .batch JobRun.oneRow⟩])),
        .received (.ok JobRun.oneRow), .writing JobRun.oneRow,
        .written JobRun.oneRow (.error ⟨.transient, "busy"⟩), .closing .sink, .closed .sink,
        .closing .source, .closed .source], JobEvent.GoesWell e := by
      simpa [JobEvent.GoesWell] using hnormal
    obtain ⟨stream, hstream, hdecide, -⟩ := hruns _ _ hclosed rfl rfl hwell
    obtain ⟨hnever, -⟩ := hdecide.fails _ rfl
    exact ⟨_, _, hclosed, rfl, hnever, rfl⟩

end Host

end BatchTransfer
