import BatchTransfer.Proofs.Job.Delivery

/-!
# Nothing is taken behind a failure

A reader takes the items of its stream one by one and puts them into the queue, and it ends with the
first failure. So a failure is the last item that a job ever takes, in any order of moves
(`JobRun.Trace.taken_prefix`). `FailsLast` is the invariant behind this.
-/

namespace BatchTransfer

open JobEvent (allReceived streamRead?)
open StreamItem (ofResult)

/-- Whether an item is a batch. -/
def StreamItem.IsBatch (item : StreamItem) : Prop := ∃ b, item = .batch b

/-- The item that a reader has taken and not put into the queue yet. -/
def Reader.inHand : Reader → List StreamItem
  | sending item _ => [ofResult item]
  | _ => []

namespace JobRun

variable {σ : Type} {w : Wiring σ} {c : JobSettings} {events more : List JobEvent}
  {s s' : JobRun σ}

/-- The items that have been put into the queue: those that the writer has received and those that
wait. -/
def passed (events : List JobEvent) (s : JobRun σ) : List StreamItem :=
  allReceived events ++ s.queue.map ofResult

/-- The items that have been taken off the stream. One that was in the hands of a reader when it was
stopped is dropped. -/
def taken (events : List JobEvent) (s : JobRun σ) : List StreamItem :=
  passed events s ++ s.reader.inHand

/-- What the writer takes out of the queue it has received. -/
theorem WriterStep.passed_eq (h : WriterStep w c s more s') :
    passed (events ++ more) s' = passed events s := by
  have hreceived {item : ConnectorResult Batch} {rest : List (ConnectorResult Batch)}
      (hqueue : s.queue = item :: rest) (hitem : allReceived more = [ofResult item]) :
      allReceived (events ++ more) ++ rest.map ofResult = passed events s := by
    rw [passed, hqueue, JobEvent.allReceived_append, hitem, List.append_assoc]
    rfl
  cases h with
  | failureReceived _ _ hqueue => exact hreceived hqueue rfl
  | emptyReceived _ _ hqueue => exact hreceived hqueue rfl
  | batchReceived _ _ hqueue => exact hreceived hqueue rfl
  | _ => exact congrArg (· ++ _) ((JobEvent.allReceived_append _ _).trans (List.append_nil _))

/-- The writer leaves the reader as it is, but for starting it. -/
theorem WriterStep.reader_eq (h : WriterStep w c s more s') :
    s'.reader = s.reader ∨ s.control.precedesRead = true := by
  cases h with
  | readStarted hcontrol => exact .inr (by rw [hcontrol]; rfl)
  | _ => exact .inl rfl

end JobRun

/-- A failure is the last item in the queue, and there is none as long as the reader goes on. -/
structure FailsLast {σ : Type} (events : List JobEvent) (s : JobRun σ) : Prop where
  before : ∀ item ∈ (s.passed events).dropLast, item.IsBatch
  going : s.reader.isFinished = false → ∀ item ∈ s.passed events, item.IsBatch

namespace FailsLast

variable {σ : Type} {w : Wiring σ} {c : JobSettings} {events more : List JobEvent}
  {s s' : JobRun σ}

theorem start (state : σ) (before : Bool) (cancelAt : Option Nat) :
    FailsLast [] (JobRun.start state before cancelAt) where
  before := nofun
  going := fun _ => nofun

/-- A writer that starts the reader finds that none has ended. -/
theorem writer_step (h : FailsLast events s)
    (hunread : s.control.precedesRead = true → s.reader.isFinished = false)
    (hstep : s.WriterStep w c more s') : FailsLast (events ++ more) s' where
  before := by
    rw [hstep.passed_eq]
    exact h.before
  going hgoing := by
    rw [hstep.passed_eq]
    rcases hstep.reader_eq with hreader | hcontrol
    · exact h.going (hreader ▸ hgoing)
    · exact h.going (hunread hcontrol)

theorem reader_step (h : FailsLast events s) (hstep : s.ReaderStep c s') :
    FailsLast events s' := by
  cases hstep with
  | stopped => exact ⟨h.before, nofun⟩
  | exhausted => exact ⟨h.before, nofun⟩
  | pulled hreader => exact ⟨h.before, fun _ => h.going (by rw [hreader]; rfl)⟩
  | @sent item rest hreader =>
      have hbatches := h.going (by rw [hreader]; rfl)
      have hpassed : JobRun.passed events { s with
          queue := s.queue ++ [item], reader := JobRun.afterSending rest s.time item } =
            s.passed events ++ [ofResult item] := by
        rw [JobRun.passed, JobRun.passed, List.map_append, List.append_assoc, List.map_singleton]
      refine ⟨?_, fun hgoing => ?_⟩
      · rw [hpassed, List.dropLast_concat]
        exact hbatches
      · rw [hpassed]
        cases item with
        | error e => cases hgoing
        | ok b =>
            intro x hx
            rcases List.mem_append.mp hx with hx | hx
            · exact hbatches x hx
            · exact ⟨b, List.mem_singleton.mp hx⟩

theorem of_trace {state : σ} {before : Bool} {cancelAt : Option Nat}
    (hrun : JobRun.Trace w c (.start state before cancelAt) events s) : FailsLast events s := by
  induction hrun with
  | refl => exact start state before cancelAt
  | @step t u events more hrun hstep ih =>
      have hdelivery := Delivery.of_trace hrun
      cases hstep with
      | @writer u seen hseen hmove =>
          have hunread (hcontrol : t.control.precedesRead = true) :
              t.reader.isFinished = false := by
            rw [(hdelivery.untouched (hdelivery.unread hcontrol)).1]
            rfl
          have hnext := writer_step (s := t.seeing seen) ⟨ih.before, ih.going⟩ hunread
            (.of_move hmove)
          exact ⟨hnext.before, hnext.going⟩
      | @reader u seen hseen hmove =>
          have hnext := reader_step (s := t.seeing seen) ⟨ih.before, ih.going⟩ (.of_move hmove)
          rw [List.append_nil]
          exact ⟨hnext.before, hnext.going⟩
      | cancel | elapse =>
          rw [List.append_nil]
          exact ⟨ih.before, ih.going⟩

/-- All that has been taken before the last item are batches. -/
theorem taken_dropLast (h : FailsLast events s) :
    ∀ item ∈ (s.taken events).dropLast, item.IsBatch := by
  cases hreader : s.reader with
  | sending item rest =>
      rw [JobRun.taken, hreader, Reader.inHand, List.dropLast_concat]
      exact h.going (by rw [hreader]; rfl)
  | _ =>
      have hnone : s.reader.inHand = [] := by rw [hreader]; rfl
      rw [JobRun.taken, hnone, List.append_nil]
      exact h.before

end FailsLast

/-- What a job has taken are the first items of its stream. -/
theorem Delivery.taken_prefix_stream {σ : Type} {cancelled : Bool} {events : List JobEvent}
    {s : JobRun σ} (h : Delivery cancelled events s) {stream : Stream}
    (hread : streamRead? events = some stream) : s.taken events <+: stream.items := by
  cases hreader : s.reader with
  | sending item rest =>
      have haccounted := h.accounted
      rw [hreader] at haccounted
      obtain ⟨all, hall, hitems⟩ := haccounted
      cases hread.symm.trans hall
      rw [JobRun.taken, hreader, hitems]
      exact ⟨rest.items, by rw [Reader.inHand, List.append_assoc]; rfl⟩
  | _ =>
      have hnone : s.reader.inHand = [] := by rw [hreader]; rfl
      rw [JobRun.taken, hnone, List.append_nil]
      exact h.passed_prefix_stream hread

/-- Of a stream with a failure behind some batches, a job takes these and the failure at most, at
every moment of every run. -/
theorem JobRun.Trace.taken_prefix {σ : Type} {w : Wiring σ} {c : JobSettings} {state : σ}
    {before : Bool} {cancelAt : Option Nat} {events : List JobEvent} {s : JobRun σ}
    (hrun : Trace w c (.start state before cancelAt) events s) {stream : Stream}
    (hread : streamRead? events = some stream) {batches : List Batch} {e : ConnectorError}
    {rest : List StreamItem} (hitems : stream.items = batches.map .batch ++ .failure e :: rest) :
    s.taken events <+: batches.map .batch ++ [.failure e] := by
  have htaken := (Delivery.of_trace hrun).taken_prefix_stream hread
  have hfirst : batches.map .batch ++ [.failure e] <+: stream.items :=
    ⟨rest, by rw [hitems, List.append_assoc, List.singleton_append]⟩
  rcases List.prefix_or_prefix_of_prefix htaken hfirst with hprefix | ⟨tail, htail⟩
  · exact hprefix
  · -- Behind the failure nothing stands, since all items before the last are batches.
    cases tail with
    | nil => exact ⟨[], by rw [List.append_nil, ← htail, List.append_nil]⟩
    | cons item tail =>
        have hfailure : StreamItem.failure e ∈ (s.taken events).dropLast := by
          rw [← htail, List.dropLast_append_of_ne_nil (List.cons_ne_nil _ _)]
          simp
        obtain ⟨b, hb⟩ := (FailsLast.of_trace hrun).taken_dropLast _ hfailure
        cases hb

end BatchTransfer
