import BatchTransfer.Proofs.Job.Termination

/-!
# Jobs as their connectors see them

The connectors of a job see its calls, one after the other, and neither the queue nor the reader nor
the clock. `Wiring.Course` lists which calls may follow one another and how a job comes to its
outcome, and `JobRun.Trace.course` says that every run takes such a course. What holds of a job for
its connectors' sake is shown by induction on the course, without a look at the moves.
-/

namespace BatchTransfer

/-- The ends of a call that has been entered: its own, or that of a call that is given up because it
takes too long. -/
inductive Call.Ends {σ α : Type} (call : Call σ α) : σ → ConnectorResult α → Prop where
  | done {t : σ} {answer : ConnectorResult α} (h : call.complete = (t, answer)) : Ends call t answer
  | givenUp {e : ConnectorError} (hdelay : 0 < call.delay) : Ends call call.state (.error e)

namespace JobEvent

/-- Whether an event is the answer to a call. -/
def isAnswer : JobEvent → Bool
  | opened .. | read _ | written .. | committed _ | closed _ => true
  | _ => false

/-- The answers to calls, in order. -/
def answers (events : List JobEvent) : List JobEvent := events.filter isAnswer

variable {e : JobEvent} (events more : List JobEvent)

@[simp]
theorem answers_append : answers (events ++ more) = answers events ++ answers more :=
  List.filter_append ..

variable {events}

theorem mem_answers (he : e.isAnswer = true) : e ∈ answers events ↔ e ∈ events := by
  simp [answers, he]

variable (events)

@[simp]
theorem streamRead?_answers : streamRead? (answers events) = streamRead? events := by
  induction events with
  | nil => rfl
  | cons e events ih =>
      rw [answers, List.filter_cons, ← answers]
      split
      · rw [streamRead?, List.findSome?_cons, ← streamRead?, ih]
        rfl
      · have hnone : e.stream? = none := by cases e <;> simp_all [isAnswer, stream?]
        rw [ih, streamRead?, streamRead?, List.findSome?_cons, hnone]

@[simp]
theorem allAcknowledged_answers : allAcknowledged (answers events) = allAcknowledged events := by
  rw [allAcknowledged, allAcknowledged, answers, List.filterMap_filter]
  congr 1
  funext e
  cases e <;> rfl

end JobEvent

open JobEvent (answers streamRead? allAcknowledged allReceived)
open StreamItem (nonEmptyBatches ofResult)

/-! ### Courses -/

/-- How far a job has come with its connectors. -/
inductive Phase where
  | opening (role : Role)
  | reading
  | transferring (stream : Stream)
  | ending (outcome : JobResult CommitReceipt)

/-- The course of a job from a state of its connectors on, with the answers that it has been given:
the phase it has come to and the state in which the last call has left the connectors. A failed call
may be repeated where it belongs to an opening or is a write, or it ends the job. -/
inductive Wiring.Course {σ : Type} (w : Wiring σ) (start : σ) :
    Phase → List JobEvent → σ → Prop where
  | start : Course w start (.opening .source) [] start
  | refused {role events s time t e} (h : Course w start (.opening role) events s)
      (hcall : (w.openCall role time s).Ends t (.error e)) :
      Course w start (.opening role) (events ++ [.opened role (.error e)]) t
  | unopened {role events s time t e} (h : Course w start (.opening role) events s)
      (hcall : (w.openCall role time s).Ends t (.error e)) :
      Course w start (.ending (.error (.connection role (w.kind role) e)))
        (events ++ [.opened role (.error e)]) t
  | sourceOpened {events s time t} (h : Course w start (.opening .source) events s)
      (hcall : (w.openCall .source time s).Ends t (.ok ())) :
      Course w start (.opening .sink) (events ++ [.opened .source (.ok ())]) t
  | sinkOpened {events s time t} (h : Course w start (.opening .sink) events s)
      (hcall : (w.openCall .sink time s).Ends t (.ok ())) :
      Course w start .reading (events ++ [.opened .sink (.ok ())]) t
  | read {events s time t stream} (h : Course w start .reading events s)
      (hcall : (w.readCall time s).Ends t (.ok stream)) :
      Course w start (.transferring stream) (events ++ [.read (.ok stream)]) t
  | unread {events s time t e} (h : Course w start .reading events s)
      (hcall : (w.readCall time s).Ends t (.error e)) :
      Course w start (.ending (.error (.sourceRead (w.kind .source) e)))
        (events ++ [.read (.error e)]) t
  | written {stream events s time batch t answer}
      (h : Course w start (.transferring stream) events s)
      (hbatch : batch ∈ stream.nonEmptyBatches)
      (hcall : (w.writeCall time batch s).Ends t answer) :
      Course w start (.transferring stream) (events ++ [.written batch answer]) t
  | unwritten {stream events s time batch t attempts e}
      (h : Course w start (.transferring stream) events s)
      (hbatch : batch ∈ stream.nonEmptyBatches)
      (hcall : (w.writeCall time batch s).Ends t (.error e)) :
      Course w start (.ending (.error (.sinkWrite (w.kind .sink) attempts e)))
        (events ++ [.written batch (.error e)]) t
  | broken {stream events s e} (h : Course w start (.transferring stream) events s)
      (hbroken : ¬ stream.EndsNormally) :
      Course w start (.ending (.error (.sourceRead (w.kind .source) e))) events s
  | cancelled {phase events s} (h : Course w start phase events s)
      (hphase : ∀ outcome, phase ≠ .ending outcome) :
      Course w start (.ending (.error .cancelled)) events s
  | committed {stream events s time t answer} (h : Course w start (.transferring stream) events s)
      (hnormal : stream.EndsNormally) (hall : allAcknowledged events = stream.nonEmptyBatches)
      (hcall : (w.commitCall time s).Ends t answer) :
      Course w start (.ending (JobRun.commitOutcome w answer)) (events ++ [.committed answer]) t
  | closed {outcome role events s time t answer} (h : Course w start (.ending outcome) events s)
      (hcall : (w.closeCall role time s).Ends t answer) :
      Course w start (.ending outcome) (events ++ [.closed role]) t

namespace Wiring.Course

variable {σ : Type} {w : Wiring σ} {start s : σ} {events : List JobEvent}

/-- As long as the source has not been read, there is no stream, and while batches are transferred,
it is the one that was read. -/
theorem streamRead?_eq {phase : Phase} (h : w.Course start phase events s) :
    (∀ stream, phase = .transferring stream → streamRead? events = some stream) ∧
      (∀ role, phase = .opening role → streamRead? events = none) ∧
      (phase = .reading → streamRead? events = none) := by
  induction h with
  | start => exact ⟨nofun, fun _ _ => rfl, nofun⟩
  | refused h _ ih =>
      obtain ⟨-, hnone, -⟩ := ih
      exact ⟨nofun, fun role _ => by rw [JobEvent.streamRead?_append, hnone _ rfl]; rfl, nofun⟩
  | sourceOpened h _ ih =>
      obtain ⟨-, hnone, -⟩ := ih
      exact ⟨nofun, fun role _ => by rw [JobEvent.streamRead?_append, hnone _ rfl]; rfl, nofun⟩
  | sinkOpened h _ ih =>
      obtain ⟨-, hnone, -⟩ := ih
      exact ⟨nofun, nofun, fun _ => by rw [JobEvent.streamRead?_append, hnone _ rfl]; rfl⟩
  | read h _ ih =>
      obtain ⟨-, -, hnone⟩ := ih
      refine ⟨?_, nofun, nofun⟩
      rintro _ ⟨⟩
      rw [JobEvent.streamRead?_append, hnone rfl]
      rfl
  | written h _ _ ih =>
      obtain ⟨hread, -, -⟩ := ih
      refine ⟨?_, nofun, nofun⟩
      rintro _ ⟨⟩
      rw [JobEvent.streamRead?_append, hread _ rfl]
      rfl
  | _ => exact ⟨nofun, nofun, nofun⟩

end Wiring.Course

/-- What a failed job has met with: a call that failed, a stream that did not end well, or a
cancellation. -/
inductive Wiring.Explains {σ : Type} (w : Wiring σ) (events : List JobEvent) : JobError → Prop where
  | unopened {role e} (h : .opened role (.error e) ∈ events) :
      Explains w events (.connection role (w.kind role) e)
  | unread {e} (h : .read (.error e) ∈ events) :
      Explains w events (.sourceRead (w.kind .source) e)
  | broken {stream e} (hread : streamRead? events = some stream)
      (hbroken : ¬ stream.EndsNormally) : Explains w events (.sourceRead (w.kind .source) e)
  | unwritten {stream batch attempts e} (hread : streamRead? events = some stream)
      (hbatch : batch ∈ stream.nonEmptyBatches) (h : .written batch (.error e) ∈ events) :
      Explains w events (.sinkWrite (w.kind .sink) attempts e)
  | uncommitted {e} (h : .committed (.error e) ∈ events) :
      Explains w events (.sinkCommit (w.kind .sink) e)
  | cancelled : Explains w events .cancelled

theorem Wiring.Explains.append {σ : Type} {w : Wiring σ} {events : List JobEvent} {e : JobError}
    (h : w.Explains events e) (more : List JobEvent) : w.Explains (events ++ more) e := by
  have hkept {stream : Stream} (hread : streamRead? events = some stream) :
      streamRead? (events ++ more) = some stream := by
    rw [JobEvent.streamRead?_append, hread]
    rfl
  cases h with
  | unopened h => exact .unopened (List.mem_append_left _ h)
  | unread h => exact .unread (List.mem_append_left _ h)
  | broken hread hbroken => exact .broken (hkept hread) hbroken
  | unwritten hread hbatch h =>
      exact .unwritten (hkept hread) hbatch (List.mem_append_left _ h)
  | uncommitted h => exact .uncommitted (List.mem_append_left _ h)
  | cancelled => exact .cancelled

/-- The failure of a job is explained by the answers that it has been given. -/
theorem Wiring.Course.explains {σ : Type} {w : Wiring σ} {start s : σ} {phase : Phase}
    {events : List JobEvent} (h : w.Course start phase events s) {e : JobError}
    (hphase : phase = .ending (.error e)) : w.Explains events e := by
  have hlast {events : List JobEvent} {event : JobEvent} : event ∈ events ++ [event] :=
    List.mem_append_right _ (List.mem_singleton_self event)
  induction h with
  | unopened =>
      cases hphase
      exact .unopened hlast
  | unread =>
      cases hphase
      exact .unread hlast
  | unwritten h hbatch =>
      cases hphase
      obtain ⟨hread, -, -⟩ := h.streamRead?_eq
      exact .unwritten (by rw [JobEvent.streamRead?_append, hread _ rfl]; rfl) hbatch hlast
  | broken h hbroken =>
      cases hphase
      obtain ⟨hread, -, -⟩ := h.streamRead?_eq
      exact .broken (hread _ rfl) hbroken
  | cancelled =>
      cases hphase
      exact .cancelled
  | @committed _ _ _ _ _ answer =>
      cases answer with
      | ok => cases hphase
      | error e =>
          cases hphase
          exact .uncommitted hlast
  | closed _ _ ih => exact (ih hphase).append _
  | _ => cases hphase

/-- No call of a wiring that ends takes a property away from the state of its connectors. -/
structure Wiring.Keeps {σ : Type} (w : Wiring σ) (property : σ → Prop) : Prop where
  opens : ∀ {role time s t answer}, property s → (w.openCall role time s).Ends t answer → property t
  reads : ∀ {time s t answer}, property s → (w.readCall time s).Ends t answer → property t
  writes : ∀ {batch time s t answer}, property s → (w.writeCall time batch s).Ends t answer →
    property t
  commits : ∀ {time s t answer}, property s → (w.commitCall time s).Ends t answer → property t
  closes : ∀ {role time s t answer}, property s → (w.closeCall role time s).Ends t answer →
    property t

/-- What every call keeps holds along every course. -/
theorem Wiring.Keeps.course {σ : Type} {w : Wiring σ} {property : σ → Prop} {start s : σ}
    {phase : Phase} {events : List JobEvent} (hw : w.Keeps property) (hstart : property start)
    (h : w.Course start phase events s) : property s := by
  induction h with
  | start => exact hstart
  | refused _ hcall ih | unopened _ hcall ih | sourceOpened _ hcall ih | sinkOpened _ hcall ih =>
      exact hw.opens ih hcall
  | read _ hcall ih | unread _ hcall ih => exact hw.reads ih hcall
  | written _ _ hcall ih | unwritten _ _ hcall ih => exact hw.writes ih hcall
  | broken _ _ ih | cancelled _ _ ih => exact ih
  | committed _ _ _ hcall ih => exact hw.commits ih hcall
  | closed _ hcall ih => exact hw.closes ih hcall

/-! ### Moves and calls -/

section Calls

variable {σ α : Type} {enter : Nat → σ → Call σ α} {call : PendingCall σ α}
  {state before t : σ} {answer : ConnectorResult α}

namespace PendingCall

/-- A pending call was entered in a state of the connectors. -/
def EnteredIn (call : PendingCall σ α) (enter : Nat → σ → Call σ α) (state before : σ) : Prop :=
  ∃ time, state = (enter time before).state ∧ call.finish = (enter time before).finish ∧
    (call.givenUp = true → 0 < (enter time before).delay)

theorem enteredIn_limited (enter : Nat → σ → Call σ α) (time limit : Nat) (before : σ) :
    (limited time limit (enter time before)).EnteredIn enter (enter time before).state before :=
  ⟨time, rfl, rfl, fun hlimit => Nat.zero_lt_of_lt (of_decide_eq_true hlimit)⟩

theorem enteredIn_unlimited (enter : Nat → σ → Call σ α) (time : Nat) (before : σ) :
    (unlimited time (enter time before)).EnteredIn enter (enter time before).state before :=
  ⟨time, rfl, rfl, nofun⟩

/-- A pending call that is not given up ends as the call that was entered. -/
theorem EnteredIn.finished (h : call.EnteredIn enter state before)
    (hanswer : call.finish state = (t, answer)) : ∃ time, (enter time before).Ends t answer := by
  obtain ⟨time, rfl, hfinish, -⟩ := h
  rw [hfinish] at hanswer
  exact ⟨time, .done hanswer⟩

/-- A pending call ends as the call that was entered. -/
theorem EnteredIn.concluded (h : call.EnteredIn enter state before) {what : String}
    {limit : Duration} (hanswer : call.conclude what limit state = (t, answer)) :
    ∃ time, (enter time before).Ends t answer := by
  unfold conclude at hanswer
  split at hanswer
  · rename_i hgivenUp
    cases hanswer
    obtain ⟨time, rfl, -, hdelay⟩ := h
    exact ⟨time, .givenUp (hdelay hgivenUp)⟩
  · exact h.finished hanswer

end PendingCall

end Calls

/-- The batch with which the sink is called is one of those of the stream. -/
theorem Delivery.writing_mem {σ : Type} {cancelled : Bool} {events : List JobEvent} {s : JobRun σ}
    (h : Delivery cancelled events s) {batch : Batch}
    (hflight : s.control.inFlight? = some [batch]) {stream : Stream}
    (hread : streamRead? events = some stream) : batch ∈ stream.nonEmptyBatches := by
  obtain ⟨-, hall⟩ := h.in_flight [batch] hflight
  have hreceived : allReceived events <+: stream.items :=
    (List.prefix_append _ _).trans (h.passed_prefix_stream hread)
  refine (StreamItem.nonEmptyBatches_prefix hreceived).subset ?_
  rw [← hall]
  exact List.mem_append_right _ (List.mem_singleton_self batch)

/-- The phase of a job at a control of its writer, which has read the stream where it has read
one. -/
def Control.phase {σ : Type} (stream : Stream) : Control σ → Phase
  | .begin => .opening .source
  | .opening role .. | .openBackoff role .. => .opening role
  | .reading _ => .reading
  | .receiving | .writing .. | .writeBackoff .. | .joining (.ok ()) | .committing _ =>
      .transferring stream
  | .joining (.error e) => .ending (.error e)
  | .closing _ outcome _ | .ended outcome => .ending outcome

namespace JobRun

variable {σ : Type} {w : Wiring σ} {c : JobSettings} {events more : List JobEvent}
  {s s' : JobRun σ} {start t : σ} {stream : Stream}

/-- The state in which the last call that has ended has left the connectors. -/
def Settled (w : Wiring σ) (s : JobRun σ) (t : σ) : Prop :=
  match s.control with
  | .opening role _ call => call.EnteredIn (w.openCall role) s.state t
  | .reading call => call.EnteredIn w.readCall s.state t
  | .writing batch _ call => call.EnteredIn (fun time => w.writeCall time batch) s.state t
  | .committing call => call.EnteredIn w.commitCall s.state t
  | .closing role _ call => call.EnteredIn (w.closeCall role) s.state t
  | _ => s.state = t

/-- A move of the writer goes on with the course of a job. -/
theorem WriterStep.course (hstep : s.WriterStep w c more s') (hsettled : s.Settled w t)
    (hcourse : w.Course start (s.control.phase stream) (answers events) t) {cancelled : Bool}
    (hdelivery : Delivery cancelled events s)
    (hwhole : s.control.commits = true → ∃ stream, streamRead? events = some stream ∧
      stream.EndsNormally ∧ allAcknowledged events = stream.nonEmptyBatches)
    (hbroken : s.reader = .finished true → ∃ stream, streamRead? events = some stream ∧
      ¬ stream.EndsNormally) :
    ∃ stream' t', s'.Settled w t' ∧
      w.Course start (s'.control.phase stream') (answers (events ++ more)) t' := by
  have hquiet (hmore : answers more = []) : answers (events ++ more) = answers events := by
    rw [JobEvent.answers_append, hmore, List.append_nil]
  have hone {e : JobEvent} (hmore : answers more = [e]) :
      answers (events ++ more) = answers events ++ [e] := by
    rw [JobEvent.answers_append, hmore]
  -- While batches are transferred, the stream of the course is the one that was read.
  have hread (hphase : s.control.phase stream = .transferring stream) :
      streamRead? events = some stream := by
    rw [hphase] at hcourse
    obtain ⟨hstream, -, -⟩ := hcourse.streamRead?_eq
    rw [← JobEvent.streamRead?_answers]
    exact hstream stream rfl
  unfold Settled at hsettled
  cases hstep with
  | refuse hcontrol =>
      rw [hcontrol] at hsettled hcourse
      rw [hquiet rfl]
      exact ⟨stream, t, hsettled, hcourse.cancelled (by rintro _ ⟨⟩)⟩
  | begin hcontrol =>
      rw [hcontrol] at hsettled hcourse
      subst hsettled
      rw [hquiet rfl]
      exact ⟨stream, _, PendingCall.enteredIn_limited _ _ _ _, hcourse⟩
  | sourceOpened hcontrol _ hanswer =>
      rw [hcontrol] at hsettled hcourse
      obtain ⟨time, hcall⟩ := hsettled.concluded hanswer
      rw [hone rfl]
      exact ⟨stream, _, PendingCall.enteredIn_limited _ _ _ _, hcourse.sourceOpened hcall⟩
  | sinkOpened hcontrol _ hanswer =>
      rw [hcontrol] at hsettled hcourse
      obtain ⟨time, hcall⟩ := hsettled.concluded hanswer
      rw [hone rfl]
      exact ⟨stream, _, PendingCall.enteredIn_unlimited _ _ _, hcourse.sinkOpened hcall⟩
  | openRepeated hcontrol _ hanswer =>
      rw [hcontrol] at hsettled hcourse
      obtain ⟨time, hcall⟩ := hsettled.concluded hanswer
      rw [hone rfl]
      exact ⟨stream, _, rfl, hcourse.refused hcall⟩
  | openGivenUp hcontrol _ hanswer =>
      rw [hcontrol] at hsettled hcourse
      obtain ⟨time, hcall⟩ := hsettled.concluded hanswer
      rw [hone rfl]
      exact ⟨stream, _, PendingCall.enteredIn_limited _ _ _ _, hcourse.unopened hcall⟩
  | openCancelled hcontrol =>
      rw [hcontrol] at hsettled hcourse
      subst hsettled
      rw [hquiet rfl]
      exact ⟨stream, _, PendingCall.enteredIn_limited _ _ _ _, hcourse.cancelled (by rintro _ ⟨⟩)⟩
  | openAgain hcontrol =>
      rw [hcontrol] at hsettled hcourse
      subst hsettled
      rw [hquiet rfl]
      exact ⟨stream, _, PendingCall.enteredIn_limited _ _ _ _, hcourse⟩
  | @readStarted _ _ stream' hcontrol _ hanswer =>
      rw [hcontrol] at hsettled hcourse
      obtain ⟨time, hcall⟩ := hsettled.finished hanswer
      rw [hone rfl]
      exact ⟨stream', _, rfl, hcourse.read hcall⟩
  | readFailed hcontrol _ hanswer =>
      rw [hcontrol] at hsettled hcourse
      obtain ⟨time, hcall⟩ := hsettled.finished hanswer
      rw [hone rfl]
      exact ⟨stream, _, PendingCall.enteredIn_limited _ _ _ _, hcourse.unread hcall⟩
  | transferCancelled hcontrol | writeCancelled hcontrol =>
      rw [hcontrol] at hsettled hcourse
      rw [hquiet rfl]
      exact ⟨stream, t, hsettled, hcourse.cancelled (by rintro _ ⟨⟩)⟩
  | @failureReceived e rest hcontrol _ hqueue =>
      have hpassed := hdelivery.passed_prefix_stream (hread (by rw [hcontrol]; rfl))
      have hfailure : .failure e ∈ stream.items := hpassed.subset (by simp [hqueue, ofResult])
      rw [hcontrol] at hsettled hcourse
      rw [hquiet rfl]
      refine ⟨stream, t, hsettled, hcourse.broken fun hnormal => ?_⟩
      obtain ⟨b, hb⟩ := hnormal _ hfailure
      cases hb
  | emptyReceived hcontrol =>
      refine ⟨stream, t, ?_, ?_⟩
      · rw [Settled]
        simpa only [hcontrol] using hsettled
      · rw [hquiet rfl]
        exact hcourse
  | @batchReceived batch rest hcontrol =>
      rw [hcontrol] at hsettled hcourse
      subst hsettled
      rw [hquiet rfl]
      exact ⟨stream, _, PendingCall.enteredIn_limited (fun time => w.writeCall time batch) _ _ _,
        hcourse⟩
  | drained hcontrol =>
      rw [hcontrol] at hsettled hcourse
      rw [hquiet rfl]
      exact ⟨stream, t, hsettled, hcourse⟩
  | @acknowledged batch _ _ _ _ hcontrol _ hanswer
  | @writeRepeated batch _ _ _ _ hcontrol _ hanswer =>
      have hbatch := hdelivery.writing_mem (by rw [hcontrol]; rfl) (hread (by rw [hcontrol]; rfl))
      rw [hcontrol] at hsettled hcourse
      obtain ⟨time, hcall⟩ := hsettled.concluded hanswer
      rw [hone rfl]
      exact ⟨stream, _, rfl, hcourse.written hbatch hcall⟩
  | @writeGivenUp batch _ _ _ _ _ hcontrol _ hanswer =>
      have hbatch := hdelivery.writing_mem (by rw [hcontrol]; rfl) (hread (by rw [hcontrol]; rfl))
      rw [hcontrol] at hsettled hcourse
      obtain ⟨time, hcall⟩ := hsettled.concluded hanswer
      rw [hone rfl]
      exact ⟨stream, _, rfl, hcourse.unwritten hbatch hcall⟩
  | @writeAgain batch budget due hcontrol =>
      rw [hcontrol] at hsettled hcourse
      subst hsettled
      rw [hquiet rfl]
      exact ⟨stream, _, PendingCall.enteredIn_limited (fun time => w.writeCall time batch) _ _ _,
        hcourse⟩
  | joinedAfterFailure hcontrol =>
      rw [hcontrol] at hsettled hcourse
      subst hsettled
      rw [hquiet rfl]
      exact ⟨stream, _, PendingCall.enteredIn_limited _ _ _ _, hcourse⟩
  | joinedBroken hcontrol hreader =>
      obtain ⟨stream', hstream, hbroken⟩ := hbroken hreader
      cases (hread (by rw [hcontrol]; rfl)).symm.trans hstream
      rw [hcontrol] at hsettled hcourse
      subst hsettled
      rw [hquiet rfl]
      exact ⟨stream, _, PendingCall.enteredIn_limited _ _ _ _, hcourse.broken hbroken⟩
  | joinedCancelled hcontrol =>
      rw [hcontrol] at hsettled hcourse
      subst hsettled
      rw [hquiet rfl]
      exact ⟨stream, _, PendingCall.enteredIn_limited _ _ _ _, hcourse.cancelled (by rintro _ ⟨⟩)⟩
  | commit hcontrol =>
      rw [hcontrol] at hsettled hcourse
      subst hsettled
      rw [hquiet rfl]
      exact ⟨stream, _, PendingCall.enteredIn_limited _ _ _ _, hcourse⟩
  | committed hcontrol _ hanswer =>
      obtain ⟨stream', hstream, hnormal, hall⟩ := hwhole (by rw [hcontrol]; rfl)
      cases (hread (by rw [hcontrol]; rfl)).symm.trans hstream
      rw [hcontrol] at hsettled hcourse
      obtain ⟨time, hcall⟩ := hsettled.concluded hanswer
      rw [← JobEvent.allAcknowledged_answers] at hall
      rw [hone rfl]
      exact ⟨stream, _, PendingCall.enteredIn_limited _ _ _ _, hcourse.committed hnormal hall hcall⟩
  | sinkClosed hcontrol _ hanswer =>
      rw [hcontrol] at hsettled hcourse
      obtain ⟨time, hcall⟩ := hsettled.concluded hanswer
      rw [hone rfl]
      exact ⟨stream, _, PendingCall.enteredIn_limited _ _ _ _, hcourse.closed hcall⟩
  | sourceClosed hcontrol _ hanswer =>
      rw [hcontrol] at hsettled hcourse
      obtain ⟨time, hcall⟩ := hsettled.concluded hanswer
      rw [hone rfl]
      exact ⟨stream, _, rfl, hcourse.closed hcall⟩

/-- A move of the reader calls no connector. -/
theorem ReaderStep.settled (hstep : s.ReaderStep c s') (hsettled : s.Settled w t) :
    s'.Settled w t ∧ s'.control = s.control := by
  cases hstep <;> exact ⟨hsettled, rfl⟩

/-- A reader that has broken down has come upon a breakdown of the stream. -/
theorem Trace.not_endsNormally {state : σ} {before : Bool} {cancelAt : Option Nat}
    (hrun : Trace w c (.start state before cancelAt) events s)
    (hreader : s.reader = .finished true) :
    ∃ stream, streamRead? events = some stream ∧ ¬ stream.EndsNormally := by
  induction hrun with
  | refl => cases hreader
  | @step t u events more hrun hstep ih =>
      have hkept (h : t.reader = .finished true) :
          ∃ stream, streamRead? (events ++ more) = some stream ∧ ¬ stream.EndsNormally := by
        obtain ⟨stream, hstream, hbroken⟩ := ih h
        exact ⟨stream, by simp [hstream], hbroken⟩
      cases hstep with
      | writer _ hmove =>
          have hwriter := WriterStep.of_move hmove
          generalize (t.seeing _).answerEvents c ++ _ = more at hwriter hkept
          cases hwriter with
          | readStarted => cases hreader
          | _ => exact hkept hreader
      | reader _ hmove =>
          cases ReaderStep.of_move hmove with
          | stopped | exhausted => cases hreader
          | @pulled stream since a rest hpulling hnext =>
              have haccounted := (Delivery.of_trace hrun).accounted
              rw [show t.reader = .pulling stream since from hpulling] at haccounted
              obtain ⟨whole, hread, hitems⟩ := haccounted
              refine ⟨whole, by simp [hread], fun hnormal => ?_⟩
              obtain ⟨b, hb⟩ := hnormal a.item (by simp [hitems, Stream.items_of_next? hnext])
              change afterArrival rest a.item = .finished true at hreader
              rw [hb] at hreader
              cases hreader
          | @sent item rest =>
              change afterSending rest _ item = .finished true at hreader
              cases item <;> cases hreader
      | cancel | elapse => exact hkept hreader

/-- Every run takes a course. -/
theorem Trace.course {state : σ} {before : Bool} {cancelAt : Option Nat}
    (hrun : Trace w c (.start state before cancelAt) events s) :
    ∃ stream t, s.Settled w t ∧ w.Course state (s.control.phase stream) (answers events) t := by
  induction hrun with
  | refl => exact ⟨.empty, state, rfl, .start⟩
  | @step s u events more hrun hstep ih =>
      obtain ⟨stream, t, hsettled, hcourse⟩ := ih
      cases hstep with
      | @writer s' seen hseen hmove =>
          have hseeing : (s.seeing seen).Settled w t := hsettled
          have hdelivery := (Delivery.of_trace hrun).seeing seen
          exact (WriterStep.of_move hmove).course hseeing hcourse hdelivery
            (fun hcommits => Delivery.whole_of_trace hrun hcommits)
            fun hreader => hrun.not_endsNormally hreader
      | reader _ hmove =>
          obtain ⟨hsettled', hcontrol⟩ := (ReaderStep.of_move hmove).settled (w := w) hsettled
          rw [List.append_nil]
          exact ⟨stream, t, hsettled', hcontrol ▸ hcourse⟩
      | cancel | elapse =>
          rw [List.append_nil]
          exact ⟨stream, t, hsettled, hcourse⟩

/-- A run that has ended has taken a course to its outcome. -/
theorem Trace.course_of_outcome? {state : σ} {before : Bool} {cancelAt : Option Nat}
    {outcome : JobResult CommitReceipt}
    (hrun : Trace w c (.start state before cancelAt) events s)
    (houtcome : s.outcome? = some outcome) :
    w.Course state (.ending outcome) (answers events) s.state := by
  obtain ⟨stream, t, hsettled, hcourse⟩ := hrun.course
  have hcontrol := outcome?_eq_some_iff.mp houtcome
  rw [Settled, hcontrol] at hsettled
  rw [hcontrol] at hcourse
  subst hsettled
  exact hcourse

/-! ### Jobs that nobody cancels -/

/-- A job that ends, or is about to end, as cancelled has been cancelled. -/
theorem Trace.cancelled_of_phase {state : σ} {before : Bool} {cancelAt : Option Nat}
    (hrun : Trace w c (.start state before cancelAt) events s)
    (hphase : s.control.phase stream = .ending (.error .cancelled)) : s.cancelled = true := by
  induction hrun with
  | refl => cases hphase
  | @step s u events more hrun hstep ih =>
      cases hstep with
      | @writer s' seen hseen hmove =>
          have hseen' : seen = true → s.cancelled = true := by
            rintro rfl
            simpa using hseen
          suffices s.cancelled = true by simp [seeing, this]
          have hwriter := WriterStep.of_move hmove
          generalize (s.seeing seen).answerEvents c ++ _ = more at hwriter
          change s'.control.phase stream = _ at hphase
          cases hwriter with
          | refuse _ hcancelled | openCancelled _ hcancelled | transferCancelled _ hcancelled
          | writeCancelled _ hcancelled | joinedCancelled _ _ hcancelled => exact hseen' hcancelled
          | emptyReceived => exact ih hphase
          | joinedAfterFailure hcontrol | sinkClosed hcontrol | sourceClosed hcontrol =>
              exact ih (by rw [show s.control = _ from hcontrol]; exact hphase)
          | @committed call state answer => cases answer <;> cases hphase
          | _ => cases hphase
      | reader _ hmove =>
          cases ReaderStep.of_move hmove <;> exact ih hphase
      | cancel => rfl
      | elapse => exact ih hphase

/-- A move in turn of a job that is not to be cancelled cancels it only if its connectors ask for
it when they have been written to. -/
theorem cancelled_of_next (h : s.next w c = some s') (hopen : s.cancelled = false)
    (hnever : s.cancelAt = none) :
    s'.cancelAt = none ∧
      (s'.cancelled = true → (∀ t, s'.Settled w t → s'.state = t) ∧
        w.asksToCancel s'.state = true) := by
  unfold next at h
  split at h
  · cases h
  simp only [Option.orElse_eq_orElse, Option.orElse_eq_or, Option.or_eq_some_iff] at h
  rcases h with hwriter | ⟨-, hcancel | ⟨-, hreader | ⟨-, hclock⟩⟩⟩
  · have hstep := WriterStep.of_move hwriter
    generalize s.answerEvents c ++ s'.entryEvents = events at hstep
    cases hstep with
    | acknowledged | writeRepeated | writeGivenUp =>
        exact ⟨hnever, fun hcancelled => ⟨fun _ h => h, by simpa [hopen] using hcancelled⟩⟩
    | _ => exact ⟨hnever, fun hcancelled => absurd hcancelled (by simp [hopen, beginOpen, beginRead,
        beginWrite, beginCommit, beginClose])⟩
  · simp [cancelMove, hnever] at hcancel
  · cases ReaderStep.of_move hreader <;> exact ⟨hnever, fun h => by simp [hopen] at h⟩
  · obtain ⟨time, -, rfl⟩ := elapse_of_clockMove hclock
    exact ⟨hnever, fun h => by simp [hopen] at h⟩

section Uncancelled

variable {property : σ → Prop} {state : σ}

/-- Moves in turn do not cancel a job that nobody is to cancel, if its connectors never ask for
it. -/
theorem cancelled_advance (hw : w.Keeps property)
    (hasks : ∀ t, property t → w.asksToCancel t = false) (hstate : property state) (n : Nat)
    (hrun : Trace w c (.start state false none) events s) (hopen : s.cancelled = false)
    (hnever : s.cancelAt = none) :
    (s.advance w c n).cancelled = false ∧ (s.advance w c n).cancelAt = none := by
  induction n generalizing s events with
  | zero => exact ⟨hopen, hnever⟩
  | succ n ih =>
      rw [advance]
      split
      · exact ⟨hopen, hnever⟩
      · rename_i t hnext
        obtain ⟨more, hstep⟩ := step_of_next hnext
        obtain ⟨stream, t', hsettled, hcourse⟩ := (hrun.step hstep).course
        obtain ⟨hnever', hcause⟩ := cancelled_of_next hnext hopen hnever
        refine ih (hrun.step hstep) (eq_false_of_ne_true fun hcancelled => ?_) hnever'
        -- The connectors would have asked for it in a state on the course of the job.
        obtain ⟨hsame, hasked⟩ := hcause hcancelled
        rw [hsame t' hsettled, hasks t' (hw.course hstate hcourse)] at hasked
        cases hasked

/-- A job that is executed and that nobody is to cancel does not end as cancelled, if its connectors
never ask for it. -/
theorem outcome?_finish_ne_cancelled (hw : w.Keeps property)
    (hasks : ∀ t, property t → w.asksToCancel t = false) (hstate : property state) :
    ((JobRun.start state false none).finish w c).outcome? ≠ some (.error .cancelled) := by
  intro houtcome
  obtain ⟨events, hrun⟩ := trace_finish (w := w) (c := c) (.start state false none)
  obtain ⟨opening, hopening⟩ := trace_advance (w := w) (c := c) (openingMoves c)
    (.start state false none)
  have hcontrol := outcome?_eq_some_iff.mp houtcome
  have hphase : (((JobRun.start state false none).finish w c).control).phase .empty =
      .ending (.error .cancelled) := by
    rw [hcontrol]
    rfl
  have hcancelled := hrun.cancelled_of_phase hphase
  obtain ⟨hopen, hnever⟩ := cancelled_advance hw hasks hstate (openingMoves c)
    (.refl (.start state false none)) rfl rfl
  obtain ⟨hfinal, -⟩ := cancelled_advance hw hasks hstate _ hopening hopen hnever
  rw [finish, hfinal] at hcancelled
  cases hcancelled

end Uncancelled

end JobRun

end BatchTransfer
