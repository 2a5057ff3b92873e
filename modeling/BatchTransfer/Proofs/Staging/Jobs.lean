import BatchTransfer.Proofs.Job.Sites
import BatchTransfer.Proofs.Registry.Making
import BatchTransfer.Proofs.Staging.Attempts

/-!
# Jobs that load all or nothing

A job calls its sink through a `Wiring`. Where every call does to a staging sink what an attempt of
it may do (`Wiring.Stages`), each move of the job is such an attempt, or one of the source, which
spares the sink. `Loading` is the invariant of the job: as long as no commit has been answered with
a receipt the tables are as they were, from then on they hold what was acknowledged, and the folder
of the job is empty before the sink is opened and when it has been closed.
-/

namespace BatchTransfer

open JobEvent (allAcknowledged allReceived streamRead?)
open Staging (Location ObjectPath Store StagingEvent StagingSink)
open Staging.StagingSink (Attempt Confined Holds IsFresh Loads Spares jobFolder objectAt?
  oneFieldBatch toRecords_oneFieldBatch)

namespace JobEvent

/-- The call of a staging sink that has ended. -/
def staging? : JobEvent → Option StagingEvent
  | opened .sink answer => some (.opened answer)
  | written batch answer => some (.written batch answer)
  | committed answer => some (.committed answer)
  | closed .sink => some (.closed (.ok ()))
  | _ => none

/-- What the events of one move of a job are to a staging sink. -/
def stagingEvent (events : List JobEvent) : StagingEvent :=
  (events.findSome? staging?).getD .elsewhere

end JobEvent

open JobEvent (stagingEvent)

/-! ### Calls on a staging sink -/

section Calls

variable {σ α : Type} (area : Store) (view? : σ → Option (StagingSink × Host))

/-- A call does to a staging sink what an attempt may do that ends with an event. -/
def Attempts (enter : Nat → σ → Call σ α) (event : ConnectorResult α → StagingEvent) : Prop :=
  ∀ time s v t answer, view? s = some v → (enter time s).Ends t answer →
    ∃ v', view? t = some v' ∧ Attempt area v (event answer) v'

/-- A wiring of a staging sink and a source that has nothing to do with it. A call of the sink is
performed or fails; closing it does not fail. -/
structure Wiring.Stages (w : Wiring σ) : Prop where
  opens_source : Attempts area view? (w.openCall .source) fun _ => .elsewhere
  opens_sink : Attempts area view? (w.openCall .sink) .opened
  reads : Attempts area view? w.readCall fun _ => .elsewhere
  writes : ∀ batch, Attempts area view? (fun time => w.writeCall time batch) (.written batch)
  commits : Attempts area view? w.commitCall .committed
  closes_sink : Attempts area view? (w.closeCall .sink) fun _ => .closed (.ok ())
  closes_source : Attempts area view? (w.closeCall .source) fun _ => .elsewhere

/-- A call is pending that was entered when the sink and its host were as given. -/
def PendingCall.Awaits (call : PendingCall σ α) (enter : Nat → σ → Call σ α) (state : σ)
    (v : StagingSink × Host) : Prop :=
  ∃ time before, view? before = some v ∧ state = (enter time before).state ∧
    call.finish = (enter time before).finish ∧
    (call.givenUp = true → 0 < (enter time before).delay)

variable {area view?} {enter : Nat → σ → Call σ α} {event : ConnectorResult α → StagingEvent}
  {call : PendingCall σ α} {state t : σ} {v : StagingSink × Host} {answer : ConnectorResult α}

namespace PendingCall

theorem awaits_limited (enter : Nat → σ → Call σ α) (time limit : Nat) (h : view? state = some v) :
    (limited time limit (enter time state)).Awaits view? enter (enter time state).state v :=
  ⟨time, state, h, rfl, rfl, fun hlimit => Nat.zero_lt_of_lt (of_decide_eq_true hlimit)⟩

theorem awaits_unlimited (enter : Nat → σ → Call σ α) (time : Nat) (h : view? state = some v) :
    (unlimited time (enter time state)).Awaits view? enter (enter time state).state v :=
  ⟨time, state, h, rfl, rfl, nofun⟩

/-- When a pending call ends that cannot be given up, the attempt has been made. -/
theorem Awaits.finished (h : call.Awaits view? enter state v)
    (hattempts : Attempts area view? enter event) (hanswer : call.finish state = (t, answer)) :
    ∃ v', view? t = some v' ∧ Attempt area v (event answer) v' := by
  obtain ⟨time, before, hbefore, rfl, hfinish, -⟩ := h
  rw [hfinish] at hanswer
  exact hattempts time before v t answer hbefore (.done hanswer)

/-- When a pending call ends or is given up, the attempt has been made. -/
theorem Awaits.concluded (h : call.Awaits view? enter state v)
    (hattempts : Attempts area view? enter event) {what : String} {limit : Duration}
    (hanswer : call.conclude what limit state = (t, answer)) :
    ∃ v', view? t = some v' ∧ Attempt area v (event answer) v' := by
  unfold conclude at hanswer
  split at hanswer
  · rename_i hgivenUp
    cases hanswer
    obtain ⟨time, before, hbefore, rfl, -, hdelay⟩ := h
    exact hattempts time before v _ _ hbefore (.givenUp (hdelay hgivenUp))
  · exact h.finished hattempts hanswer

end PendingCall

end Calls

/-! ### Moves of a job on a staging sink -/

namespace Control

variable {σ : Type}

/-- Whether a commit has been answered with a receipt. -/
def hasCommitted : Control σ → Bool
  | .closing _ (.ok _) _ | .ended (.ok _) => true
  | _ => false

/-- Whether the sink has not been opened yet, or has been closed. -/
def sparesSink : Control σ → Bool
  | .begin | .opening .source _ _ | .openBackoff .source _ _ => true
  | .closing .source _ _ | .ended _ => true
  | _ => false

end Control

/-- What a job has made of the tables: it has loaded all batches with rows that its source has
given, projected, or it has failed and changed nothing. -/
structure LoadsAllOrNothing {α : Type} (target : String) (mode : SaveMode) (projection : Projection)
    (events : List JobEvent) (result : JobResult α) (before after : Tables) : Prop where
  failed : ∀ e, result = .error e → after = before
  completed : ∀ a, result = .ok a → ∃ stream, streamRead? events = some stream ∧
    stream.EndsNormally ∧ Loads target mode projection stream.nonEmptyBatches before after

/-- What a job has made of a staging area: all objects that are not below its folder are as they
were, and below it there are none, unless they are to be kept. -/
structure Clears (folder : String) (keeps : Bool) (before after : ObjectPath → Option Content) :
    Prop where
  outside : ∀ p : ObjectPath, p.IsProper → p.isBelow (.ofText folder) = false → after p = before p
  emptied : keeps = false →
    ∀ p : ObjectPath, p.IsProper → p.isBelow (.ofText folder) = true → after p = none

namespace JobRun

variable {σ : Type} {w : Wiring σ} {c : JobSettings} {view? : σ → Option (StagingSink × Host)}
  {area : Store} {v : StagingSink × Host} {events more : List JobEvent} {s s' : JobRun σ}

/-- The sink and its host as they are, or as they were when the pending call was entered. -/
def Shows (w : Wiring σ) (view? : σ → Option (StagingSink × Host)) (s : JobRun σ)
    (v : StagingSink × Host) : Prop :=
  match s.control with
  | .opening role _ call => call.Awaits view? (w.openCall role) s.state v
  | .reading call => call.Awaits view? w.readCall s.state v
  | .writing batch _ call => call.Awaits view? (fun time => w.writeCall time batch) s.state v
  | .committing call => call.Awaits view? w.commitCall s.state v
  | .closing role _ call => call.Awaits view? (w.closeCall role) s.state v
  | _ => view? s.state = some v

/-- Every move of the writer is an attempt on the sink. -/
theorem WriterStep.exists_attempt (hstep : s.WriterStep w c events s') (hw : w.Stages area view?)
    (hshows : s.Shows w view? v) :
    ∃ v', s'.Shows w view? v' ∧ Attempt area v (stagingEvent events) v' := by
  -- Entering a call touches neither the sink nor its host: what the call does shows when it ends.
  have hspared (h : s'.Shows w view? v) (hevents : stagingEvent events = .elsewhere) :
      ∃ v', s'.Shows w view? v' ∧ Attempt area v (stagingEvent events) v' :=
    ⟨v, h, hevents ▸ .spared (.of_eq rfl rfl rfl)⟩
  unfold Shows at hshows
  cases hstep with
  | refuse hcontrol | transferCancelled hcontrol | failureReceived hcontrol | drained hcontrol
  | writeCancelled hcontrol =>
      rw [hcontrol] at hshows
      exact hspared hshows rfl
  | emptyReceived hcontrol =>
      rw [hcontrol] at hshows
      refine hspared ?_ rfl
      rw [Shows]
      simpa only [hcontrol] using hshows
  | begin hcontrol | openCancelled hcontrol | openAgain hcontrol | joinedAfterFailure hcontrol
  | joinedBroken hcontrol | joinedCancelled hcontrol | commit hcontrol =>
      rw [hcontrol] at hshows
      exact hspared (PendingCall.awaits_limited _ _ _ hshows) rfl
  | @batchReceived batch rest hcontrol | @writeAgain batch budget due hcontrol =>
      rw [hcontrol] at hshows
      exact hspared (PendingCall.awaits_limited (fun time => w.writeCall time batch) _ _ hshows) rfl
  | sourceOpened hcontrol _ hanswer =>
      rw [hcontrol] at hshows
      obtain ⟨v', hv', hattempt⟩ := hshows.concluded hw.opens_source hanswer
      exact ⟨v', PendingCall.awaits_limited _ _ _ hv', hattempt⟩
  | sinkOpened hcontrol _ hanswer =>
      rw [hcontrol] at hshows
      obtain ⟨v', hv', hattempt⟩ := hshows.concluded hw.opens_sink hanswer
      exact ⟨v', PendingCall.awaits_unlimited _ _ hv', hattempt⟩
  | @openRepeated role _ _ _ _ hcontrol _ hanswer =>
      rw [hcontrol] at hshows
      cases role with
      | source => exact hshows.concluded hw.opens_source hanswer
      | sink => exact hshows.concluded hw.opens_sink hanswer
  | @openGivenUp role _ _ _ _ hcontrol _ hanswer =>
      rw [hcontrol] at hshows
      cases role with
      | source =>
          obtain ⟨v', hv', hattempt⟩ := hshows.concluded hw.opens_source hanswer
          exact ⟨v', PendingCall.awaits_limited _ _ _ hv', hattempt⟩
      | sink =>
          obtain ⟨v', hv', hattempt⟩ := hshows.concluded hw.opens_sink hanswer
          exact ⟨v', PendingCall.awaits_limited _ _ _ hv', hattempt⟩
  | readStarted hcontrol _ hanswer =>
      rw [hcontrol] at hshows
      exact hshows.finished hw.reads hanswer
  | readFailed hcontrol _ hanswer =>
      rw [hcontrol] at hshows
      obtain ⟨v', hv', hattempt⟩ := hshows.finished hw.reads hanswer
      exact ⟨v', PendingCall.awaits_limited _ _ _ hv', hattempt⟩
  | acknowledged hcontrol _ hanswer | writeRepeated hcontrol _ hanswer
  | writeGivenUp hcontrol _ hanswer =>
      rw [hcontrol] at hshows
      exact hshows.concluded (hw.writes _) hanswer
  | committed hcontrol _ hanswer =>
      rw [hcontrol] at hshows
      obtain ⟨v', hv', hattempt⟩ := hshows.concluded hw.commits hanswer
      exact ⟨v', PendingCall.awaits_limited _ _ _ hv', hattempt⟩
  | sinkClosed hcontrol _ hanswer =>
      rw [hcontrol] at hshows
      obtain ⟨v', hv', hattempt⟩ := hshows.concluded hw.closes_sink hanswer
      exact ⟨v', PendingCall.awaits_limited _ _ _ hv', hattempt⟩
  | sourceClosed hcontrol _ hanswer =>
      rw [hcontrol] at hshows
      exact hshows.concluded hw.closes_source hanswer

/-- A move stages what the sink acknowledges in it, which are batches with rows. -/
theorem WriterStep.staged_eq (hstep : s.WriterStep w c more s') {cancelled : Bool}
    (hdelivery : Delivery cancelled events s) :
    (stagingEvent more).staged?.toList = allAcknowledged more := by
  cases hstep with
  | @acknowledged batch budget call state ack hcontrol =>
      -- A batch in flight has been received, and only batches with rows count as received.
      obtain ⟨-, hall⟩ := hdelivery.in_flight [batch] (by rw [hcontrol]; rfl)
      have hmem : batch ∈ StreamItem.nonEmptyBatches (allReceived events) :=
        hall ▸ List.mem_append_right _ (List.mem_singleton_self batch)
      have hrows : batch.isEmpty = false := by simpa using (List.mem_filter.mp hmem).2
      change (StagingEvent.staged? (.written batch (.ok ack))).toList = [batch]
      simp [StagingEvent.staged?, hrows]
  | @openRepeated role | @openGivenUp role => cases role <;> rfl
  | _ => rfl

/-- A move either publishes, at the end of a commit, or leaves open or settled what has been
published. -/
theorem WriterStep.hasCommitted_cases (hstep : s.WriterStep w c more s') :
    ((∃ receipt, stagingEvent more = .committed (.ok receipt)) ∧
        s.control.hasCommitted = false ∧ s'.control.hasCommitted = true) ∨
      (∀ receipt, stagingEvent more ≠ .committed (.ok receipt)) ∧
        s'.control.hasCommitted = s.control.hasCommitted := by
  cases hstep with
  | @committed call state answer hcontrol =>
      rw [hcontrol]
      cases answer with
      | ok receipt => exact .inl ⟨⟨receipt, rfl⟩, rfl, rfl⟩
      | error e => exact .inr ⟨nofun, rfl⟩
  | @sinkClosed outcome _ _ _ hcontrol | @sourceClosed outcome _ _ _ hcontrol =>
      rw [hcontrol]
      cases outcome <;> exact .inr ⟨nofun, rfl⟩
  | emptyReceived => exact .inr ⟨nofun, rfl⟩
  | @openRepeated role _ _ _ _ hcontrol | @openGivenUp role _ _ _ _ hcontrol =>
      rw [hcontrol]
      cases role <;> exact .inr ⟨nofun, rfl⟩
  | refuse hcontrol | begin hcontrol | sourceOpened hcontrol | sinkOpened hcontrol
  | openCancelled hcontrol | openAgain hcontrol | readStarted hcontrol | readFailed hcontrol
  | transferCancelled hcontrol | failureReceived hcontrol | batchReceived hcontrol
  | drained hcontrol | acknowledged hcontrol | writeRepeated hcontrol | writeGivenUp hcontrol
  | writeCancelled hcontrol | writeAgain hcontrol | joinedAfterFailure hcontrol
  | joinedBroken hcontrol | joinedCancelled hcontrol | commit hcontrol =>
      rw [hcontrol]
      exact .inr ⟨nofun, rfl⟩

/-- After a commit no batch is acknowledged. -/
theorem WriterStep.allAcknowledged_eq_nil (hstep : s.WriterStep w c more s')
    (hcommitted : s.control.hasCommitted = true) : allAcknowledged more = [] := by
  cases hstep with
  | acknowledged hcontrol =>
      rw [hcontrol] at hcommitted
      cases hcommitted
  | _ => rfl

/-- Before the sink is opened and after it has been closed, it is not called. -/
theorem WriterStep.sparesSink_cases (hstep : s.WriterStep w c more s')
    (hafter : s'.control.sparesSink = true) :
    stagingEvent more = .closed (.ok ()) ∨
      s.control.sparesSink = true ∧ stagingEvent more = .elsewhere := by
  cases hstep with
  | sinkClosed => exact .inl rfl
  | refuse hcontrol | begin hcontrol | sourceClosed hcontrol =>
      exact .inr ⟨by rw [hcontrol]; rfl, rfl⟩
  | @openRepeated role _ _ _ _ hcontrol | @openGivenUp role _ _ _ _ hcontrol
  | @openCancelled role _ _ hcontrol | @openAgain role _ _ hcontrol =>
      cases role with
      | source => exact .inr ⟨by rw [hcontrol]; rfl, rfl⟩
      | sink => cases hafter
  | emptyReceived hcontrol =>
      change s.control.sparesSink = true at hafter
      rw [hcontrol] at hafter
      cases hafter
  | _ => cases hafter

/-! ### What a job knows of its sink -/

/-- What is known of a staging sink at every moment of its job. -/
structure Loading (w : Wiring σ) (view? : σ → Option (StagingSink × Host))
    (start : StagingSink × Host) (target : String) (mode : SaveMode) (events : List JobEvent)
    (s : JobRun σ) (v : StagingSink × Host) : Prop where
  shows : s.Shows w view? v
  holds : Holds start (allAcknowledged events) v
  unloaded : s.control.hasCommitted = false → v.2.tables = start.2.tables
  loaded : s.control.hasCommitted = true →
    Loads target mode start.1.projection (allAcknowledged events) start.2.tables v.2.tables
  emptied : s.control.sparesSink = true → start.1.keeps = false → IsFresh start →
    (start.1.area start.2.shelves).IsRooted → ∀ p : ObjectPath, p.IsProper →
      p.isBelow (.ofText start.1.folder) = true →
      objectAt? (start.1.area start.2.shelves) v p = none

namespace Loading

variable {start : StagingSink × Host} {target : String} {mode : SaveMode}

/-- A move of the writer. -/
theorem writer_step (h : Loading w view? start target mode events s v)
    (hw : w.Stages (start.1.area start.2.shelves) view?)
    (hloader : start.1.loader = .table target mode) {cancelled : Bool}
    (hdelivery : Delivery cancelled events s) (hstep : s.WriterStep w c more s') :
    ∃ v', Loading w view? start target mode (events ++ more) s' v' := by
  obtain ⟨v', hshows, hattempt⟩ := hstep.exists_attempt hw h.shows
  have hacknowledged : allAcknowledged (events ++ more) =
      allAcknowledged events ++ (stagingEvent more).staged?.toList := by
    rw [JobEvent.allAcknowledged_append, hstep.staged_eq hdelivery]
  have hloader' : v.1.loader = .table target mode :=
    (congrArg StagingSink.loader h.holds.fresh_eq).trans hloader
  have hholds := h.holds.attempt hattempt
  rw [← hacknowledged] at hholds
  refine ⟨v', hshows, hholds, fun hcommitted => ?_, fun hcommitted => ?_,
    fun hspares hkeeps hfresh hrooted p hp hbelow => ?_⟩
  · rcases hstep.hasCommitted_cases with ⟨-, -, hafter⟩ | ⟨hevent, hsame⟩
    · rw [hafter] at hcommitted
      cases hcommitted
    · rw [hattempt.tables_eq hevent ⟨target, mode, hloader'⟩, h.unloaded (hsame ▸ hcommitted)]
  · rcases hstep.hasCommitted_cases with ⟨⟨receipt, hevent⟩, hbefore, -⟩ | ⟨hevent, hsame⟩
    · rw [hevent] at hattempt hacknowledged
      rw [hacknowledged, ← h.unloaded hbefore]
      simpa [StagingEvent.staged?] using h.holds.loads hloader hattempt
    · -- Nothing is acknowledged any more after a commit.
      have hnothing := hstep.allAcknowledged_eq_nil (hsame ▸ hcommitted)
      rw [hattempt.tables_eq hevent ⟨target, mode, hloader'⟩, JobEvent.allAcknowledged_append,
        hnothing, List.append_nil]
      exact h.loaded (hsame ▸ hcommitted)
  · rcases hstep.sparesSink_cases hspares with hevent | ⟨hbefore, hevent⟩
    · rw [hevent] at hattempt
      exact h.holds.emptied hattempt hfresh hrooted hkeeps hp hbelow
    · rw [hevent] at hattempt
      cases hattempt with
      | performed hcall => cases hcall
      | failed hfails => cases hfails
      | spared hchange =>
          rw [hchange.objects_eq p]
          exact h.emptied hbefore hkeeps hfresh hrooted p hp hbelow

/-- A step in which no call ends. -/
theorem congr (h : Loading w view? start target mode events s v) (hstate : s'.state = s.state)
    (hcontrol : s'.control = s.control) :
    Loading w view? start target mode (events ++ []) s' v where
  shows := by
    rw [Shows, hstate, hcontrol]
    exact h.shows
  holds := by rw [List.append_nil]; exact h.holds
  unloaded := by rw [hcontrol]; exact h.unloaded
  loaded := by rw [hcontrol, List.append_nil]; exact h.loaded
  emptied := by rw [hcontrol]; exact h.emptied

theorem step (h : Loading w view? start target mode events s v)
    (hw : w.Stages (start.1.area start.2.shelves) view?)
    (hloader : start.1.loader = .table target mode) (hdelivery : Delivery s.cancelled events s)
    (hstep : s.Step w c more s') :
    ∃ v', Loading w view? start target mode (events ++ more) s' v' := by
  cases hstep with
  | @writer t seen hseen hmove =>
      have hseen : Loading w view? start target mode events (s.seeing seen) v :=
        ⟨h.shows, h.holds, h.unloaded, h.loaded, h.emptied⟩
      obtain ⟨v', hv'⟩ := hseen.writer_step hw hloader (hdelivery.seeing seen) (.of_move hmove)
      exact ⟨v', hv'.shows, hv'.holds, hv'.unloaded, hv'.loaded, hv'.emptied⟩
  | @reader t seen hseen hmove =>
      have hsame : t.state = s.state ∧ t.control = s.control := by
        cases ReaderStep.of_move hmove <;> exact ⟨rfl, rfl⟩
      exact ⟨v, h.congr hsame.1 hsame.2⟩
  | cancel => exact ⟨v, h.congr rfl rfl⟩
  | elapse => exact ⟨v, h.congr rfl rfl⟩

/-- At the start of a job whose sink has not been called. -/
theorem at_start {job : StagingSink} (hfresh : job.fresh = job) (store : Option Store) (host : Host)
    {state : σ} (hstate : view? state = some ({ job with store }, host)) (before : Bool)
    (cancelAt : Option Nat) :
    Loading w view? ({ job with store }, host) target mode [] (.start state before cancelAt)
      ({ job with store }, host) where
  shows := hstate
  holds := .refl hfresh store host
  unloaded := fun _ => rfl
  loaded := nofun
  emptied := fun _ _ hempty _ p hp hbelow =>
    hempty p hp (ObjectPath.isWithin_of_isBelow hbelow)

/-- At every moment of every run. -/
theorem of_trace {job : StagingSink} (hfresh : job.fresh = job)
    (hloader : job.loader = .table target mode) {store : Option Store} {host : Host} {state : σ}
    {before : Bool} {cancelAt : Option Nat}
    (hw : w.Stages (({ job with store } : StagingSink).area host.shelves) view?)
    (hstate : view? state = some ({ job with store }, host))
    (hrun : Trace w c (.start state before cancelAt) events s) :
    ∃ v, Loading w view? ({ job with store }, host) target mode events s v := by
  induction hrun with
  | refl => exact ⟨_, .at_start hfresh store host hstate before cancelAt⟩
  | step hrun hstep ih =>
      obtain ⟨v, hv⟩ := ih
      exact hv.step hw hloader (.of_trace hrun) hstep

/-- What remains when a job has ended. -/
theorem concluded {state : σ} {before : Bool} {cancelAt : Option Nat}
    {outcome : JobResult CommitReceipt} (h : Loading w view? start target mode events s v)
    (hrun : Trace w c (.start state before cancelAt) events s)
    (houtcome : s.outcome? = some outcome) :
    view? s.state = some v ∧
      LoadsAllOrNothing target mode start.1.projection events outcome start.2.tables v.2.tables ∧
      (IsFresh start → (start.1.area start.2.shelves).IsRooted →
        Clears start.1.folder start.1.keeps (objectAt? (start.1.area start.2.shelves) start)
          (objectAt? (start.1.area start.2.shelves) v)) := by
  have hcontrol : s.control = .ended outcome := outcome?_eq_some_iff.mp houtcome
  obtain ⟨hshows, hholds, hunloaded, hloaded, hemptied⟩ := h
  rw [Shows, hcontrol] at hshows
  rw [hcontrol] at hunloaded hloaded hemptied
  refine ⟨hshows, ⟨?_, ?_⟩, fun hfresh hrooted =>
    ⟨(hholds.tidy hfresh hrooted).outside, fun hkeeps => hemptied rfl hkeeps hfresh hrooted⟩⟩
  · rintro e rfl
    exact hunloaded rfl
  · rintro receipt rfl
    obtain ⟨stream, hstream, hnormal, hall⟩ :=
      Delivery.whole_of_trace hrun (by rw [hcontrol]; rfl)
    exact ⟨stream, hstream, hnormal, hall ▸ hloaded rfl⟩

end Loading

end JobRun

/-! ### The connectors of a plan -/

namespace JobSite

/-- The staging sink of a site, with its host, if the sink is one. -/
def stagingSink? (site : JobSite) : Option (StagingSink × Host) :=
  match site.sink with
  | .staging g => some (g, site.host)
  | _ => none

variable {α : Type} {site t : JobSite} {area : Store} {v : StagingSink × Host}
  {answer : ConnectorResult α}

theorem stagingSink?_eq_some_iff :
    site.stagingSink? = some v ↔ site.sink = .staging v.1 ∧ site.host = v.2 := by
  unfold stagingSink?
  split
  · rename_i hsink
    rw [hsink, Option.some.injEq, Prod.ext_iff, Sink.staging.injEq]
  · rename_i hsink
    exact ⟨nofun, fun h => absurd h.1 (hsink v.1)⟩

/-- A call of the source spares the sink. -/
theorem attempts_onSource {call : Source → Nat → Host → Call (Source × Host) α}
    (hcall : ∀ x time h, (call x time h).Leaves (·.2.withoutRehearsals) (x, h)) :
    Attempts area stagingSink? (fun time site => site.onSource (call site.source time site.host))
      fun _ => .elsewhere := by
  intro time site v t answer hview hends
  rw [stagingSink?_eq_some_iff] at hview
  obtain ⟨hsink, hhost⟩ := hview
  obtain ⟨hsink', hhost'⟩ := host_eq_of_onSource (hcall ..) hends
  rw [hhost] at hhost'
  refine ⟨(v.1, t.host), stagingSink?_eq_some_iff.mpr ⟨hsink'.trans hsink, rfl⟩, .spared ?_⟩
  exact .of_eq rfl (congrArg Host.tables hhost' :) (congrArg Host.shelves hhost' :)

/-- A call of the sink is an attempt, if it is one when it ends as the sink has it and when it is
given up. -/
theorem attempts_onSink (call : Sink → Nat → Host → Call (Sink × Host) α)
    {event : ConnectorResult α → StagingEvent}
    (hdone : ∀ g time host p answer, (call (.staging g) time host).complete = (p, answer) →
      ∃ v', p = (.staging v'.1, v'.2) ∧ Attempt area (g, host) (event answer) v')
    (hgivenUp : ∀ g time host e, 0 < (call (.staging g) time host).delay →
      ∃ v', (call (.staging g) time host).state = (.staging v'.1, v'.2) ∧
        Attempt area (g, host) (event (.error e)) v') :
    Attempts area stagingSink? (fun time site => site.onSink (call site.sink time site.host))
      event := by
  intro time site v t answer hview hends
  obtain ⟨hsink, hhost⟩ := stagingSink?_eq_some_iff.mp hview
  dsimp only at hends
  rw [hsink, hhost] at hends
  obtain ⟨p, hcall, rfl⟩ := ends_onSink hends
  cases hcall with
  | done hcomplete =>
      obtain ⟨v', rfl, hattempt⟩ := hdone v.1 time v.2 p answer hcomplete
      exact ⟨v', rfl, hattempt⟩
  | @givenUp e hdelay =>
      obtain ⟨v', hstate, hattempt⟩ := hgivenUp v.1 time v.2 e hdelay
      exact ⟨v', by rw [hstate]; rfl, hattempt⟩

/-- The connectors of a site are wired as a staging sink needs it. -/
theorem wiring_stages (area : Store) (kind : Role → String) :
    (wiring kind).Stages area stagingSink? where
  opens_source := attempts_onSource Source.openCall_leaves
  reads := attempts_onSource Source.readCall_leaves
  closes_source := attempts_onSource Source.closeCall_leaves
  opens_sink := by
    refine attempts_onSink Sink.openCall (fun g time host p answer h => ?_)
      fun _ _ _ _ hdelay => absurd hdelay (Nat.lt_irrefl 0)
    rw [StagingSink.complete_openCall] at h
    cases h
    exact ⟨_, rfl, .performed rfl (.opened (StagingSink.complete_openCall g time host))⟩
  writes batch := by
    refine attempts_onSink (fun x time => x.writeCall time batch)
      (fun g time host p answer h => ?_) fun _ _ _ _ hdelay => absurd hdelay (Nat.lt_irrefl 0)
    rw [StagingSink.complete_writeCall] at h
    cases h
    exact ⟨_, rfl, .performed rfl (.written (StagingSink.complete_writeCall g time batch host))⟩
  commits := by
    refine attempts_onSink Sink.commitCall (fun g time host p answer h => ?_)
      fun g time host e _ => ?_
    · have hsink : p = (.staging g, p.2) := by
        rw [StagingSink.complete_commitCall] at h
        split at h <;> cases h <;> rfl
      rw [hsink] at h
      exact ⟨(g, p.2), hsink, .performed rfl (.committed h)⟩
    · -- Until a load is done there is nothing to be seen of it.
      refine ⟨(g, host), ?_, .failed rfl (Spares.of_eq rfl rfl rfl).confined⟩
      have hstate : (g.commit host.shelves host.tables).state = host.tables := by
        unfold StagingSink.commit
        split <;> rfl
      change (Sink.staging g, { host with tables := (g.commit host.shelves host.tables).state }) = _
      rw [hstate]
  closes_sink := by
    refine attempts_onSink Sink.closeCall (fun g time host p answer h => ?_)
      fun _ _ _ _ hdelay => absurd hdelay (Nat.lt_irrefl 0)
    rw [StagingSink.complete_closeCall] at h
    cases h
    exact ⟨_, rfl, .performed rfl (.closed (StagingSink.complete_closeCall g time host))⟩

/-- A commit into a table is done at once, if all that is staged can be read. -/
theorem writerMove_beginCommit {c : JobSettings} {kind : Role → String} {s : JobRun JobSite}
    {g : StagingSink} {target : String} {mode : SaveMode} {records : List Record}
    (hsink : s.state.sink = .staging g) (hloader : g.loader = .table target mode)
    (hrecords : g.stagedRecords s.state.host.shelves = .ok records) :
    (s.beginCommit (wiring kind) c).writerMove (wiring kind) c =
      some ({ s.beginCommit (wiring kind) c with
        state := setSink (.staging g, { s.state.host with
          tables := (g.loader.publish s.state.host.tables records).1 }) s.state
        }.beginClose (wiring kind) c .sink
          (.ok ⟨records.length, some (tableLocation target)⟩)) := by
  obtain ⟨⟨source, sink, host⟩, time, cancelled, cancelAt, control, reader, queue, progress⟩ := s
  cases hsink
  have hcall : (Sink.staging g).commitCall time host =
      { state := (.staging g, host)
        delay := 0
        finish := fun p =>
          ((p.1, { p.2 with tables := (g.loader.publish p.2.tables records).1 }),
            .ok ⟨records.length, some (tableLocation target)⟩) } := by
    have hpublished (t : Tables) :
        ((Staging.Loader.table target mode).publish t records).2 = .ok records.length := by
      cases mode <;> rfl
    dsimp only at hrecords
    simp only [Sink.commitCall, StagingSink.commit, hrecords, hloader, hpublished, Call.inside]
    rfl
  have hbegin : JobRun.beginCommit (wiring kind) c
      ⟨⟨source, .staging g, host⟩, time, cancelled, cancelAt, control, reader, queue, progress⟩ =
        ⟨⟨source, .staging g, host⟩, time, cancelled, cancelAt,
          .committing (.limited time c.commitLimit.millis
            (onSink ⟨source, .staging g, host⟩ ((Sink.staging g).commitCall time host))),
          reader, queue, progress.enter .committing⟩ := by
    simp only [JobRun.beginCommit, wiring, hcall]
    rfl
  rw [hbegin, hcall, JobRun.writerMove]
  exact if_neg (Nat.lt_irrefl time)

end JobSite

namespace Staging.Location

/-- What is found in the area of a location is found by a sink that uses the area, unless the sink
keeps all objects to itself. -/
theorem get?_area (l : Location) (files : FileTree) {v : StagingSink × Host}
    (h : v.1.UsesArea (l.area files)) (p : ObjectPath) :
    (l.area files).get? v.2.shelves p = objectAt? (l.area files) v p ∨
      ∀ shelves, (l.area files).get? shelves p = none := by
  cases l with
  | directory root =>
      refine .inl ?_
      rw [objectAt?]
      cases hstore : v.1.store with
      | none => rfl
      | some store =>
          obtain ⟨objects, rfl⟩ := h store hstore
          rfl
  | memory | bucket => exact .inr fun _ => rfl

end Staging.Location

namespace Host

/-- The site of a plan whose sink stages and publishes in a table. -/
theorem makeSite_warehouse {h : Host} {registry : ConnectorRegistry} {plan : Plan} {site : JobSite}
    (hsite : h.makeSite registry plan = .ok site)
    (hsink : registry.sinks.get? plan.sink.kind = some ConnectorRegistry.warehouseSink) :
    ∃ valid location projection,
      Staging.warehouseSchema.validate plan.sink.options registry.unknownOptions = .ok valid ∧
      Staging.locationOption valid = .ok location ∧ valid.projection = .ok projection ∧
      site.sink = .staging (.new (.table (valid.text "target") valid.saveMode) location projection
        (valid.flag "keepStaging") h.nextRun) ∧
      site.host = { h with nextRun := h.nextRun.next } := by
  obtain ⟨source, sink, -, hmade, rfl⟩ := makeSite_eq_ok_iff.mp hsite
  obtain ⟨valid, hvalid, hcreated⟩ := (Registry.make_eq_ok_iff hsink).mp hmade
  obtain ⟨g, hg, rfl⟩ := exists_of_map_eq_ok hcreated
  obtain ⟨-, location, projection, hlocation, -, hprojection, rfl⟩ :=
    Staging.createWarehouse_eq_ok_iff.mp hg
  exact ⟨valid, location, projection, hvalid, hlocation, hprojection, rfl, rfl⟩

/-- A job that has ended leaves tables and objects as its machine has left them. -/
theorem concludeJob_eq (registry : ConnectorRegistry) (plan : Plan) (run : RunId)
    {s : JobRun JobSite} {outcome : JobResult CommitReceipt} (h : s.outcome? = some outcome) :
    (concludeJob registry plan run s).host.tables = s.state.host.tables ∧
      (concludeJob registry plan run s).host.shelves = s.state.host.shelves ∧
      (∀ e, outcome = .error e ↔ (concludeJob registry plan run s).result = .error e) ∧
      ((∃ receipt, outcome = .ok receipt) ↔
        ∃ report, (concludeJob registry plan run s).result = .ok report) := by
  unfold concludeJob
  rw [h]
  cases outcome with
  | ok receipt =>
      refine ⟨?_, ?_, fun e => by simp, by simp⟩ <;> simp only [publish] <;> split <;> rfl
  | error e => exact ⟨rfl, rfl, fun e' => by simp [failed], by simp [failed]⟩

/-- A job whose sink stages its batches and publishes them in a table loads all batches with rows
that its source has given, projected and in order, or fails and leaves the tables as they were. If
its run is fresh, it leaves nothing in its folder, unless the parts are to be kept, and all else in
the staging area as it was. So it is for any source that has nothing to do with the sink and any
failures of the calls of the sink but of its closing, wherever the job is cancelled. The connectors
of a plan whose sink is made so are of this kind; the area of such a plan is that of the location
that its options name, as the host holds it. Where they cannot be made, nothing changes at all. -/
theorem loads_all_or_nothing (h : Host) (registry : ConnectorRegistry) (settings : JobSettings)
    (plan : Plan) (cancellation : Cancellation) :
    (∀ {σ : Type} (w : Wiring σ) (view? : σ → Option (StagingSink × Host)) (state : σ)
      (before : Bool) (cancelAt : Option Nat) (events : List JobEvent) (s : JobRun σ)
      (outcome : JobResult CommitReceipt) (target : String) (mode : SaveMode) (location : Location)
      (projection : Projection) (keeps : Bool) (run : RunId) (store : Option Store)
      (start : StagingSink × Host),
      start.1 = { StagingSink.new (.table target mode) location projection keeps run with store } →
      w.Stages (start.1.area start.2.shelves) view? → view? state = some start →
      JobRun.Trace w settings (.start state before cancelAt) events s →
      s.outcome? = some outcome →
        ∃ v, view? s.state = some v ∧
          LoadsAllOrNothing target mode projection events outcome start.2.tables v.2.tables ∧
          (IsFresh start → (start.1.area start.2.shelves).IsRooted →
            Clears (jobFolder location run) keeps (objectAt? (start.1.area start.2.shelves) start)
              (objectAt? (start.1.area start.2.shelves) v))) ∧
    (registry.sinks.get? plan.sink.kind = some ConnectorRegistry.warehouseSink →
      (∃ events, h.PlanRun registry settings plan cancellation events
        (h.runPlan registry settings plan cancellation)) ∧
      ∀ events outcome, h.PlanRun registry settings plan cancellation events outcome →
        (∃ e, h.makeSite registry plan = .error e ∧ outcome.result = .error e ∧ outcome.host = h) ∨
        ∃ valid location projection sink,
          Staging.warehouseSchema.validate plan.sink.options registry.unknownOptions = .ok valid ∧
          Staging.locationOption valid = .ok location ∧ valid.projection = .ok projection ∧
          sink = StagingSink.new (.table (valid.text "target") valid.saveMode) location projection
            (valid.flag "keepStaging") h.nextRun ∧
          LoadsAllOrNothing (valid.text "target") valid.saveMode projection events outcome.result
            h.tables outcome.host.tables ∧
          (IsFresh (sink, h) → FileTree.IsPath h.files.workingDirectory →
            Clears (jobFolder location h.nextRun) (valid.flag "keepStaging")
              ((location.area h.files).get? h.shelves)
              ((location.area h.files).get? outcome.host.shelves))) := by
  refine ⟨fun w view? state before cancelAt events s outcome target mode location projection keeps
    run store start hstart hw hstate hrun houtcome => ?_, fun hsink =>
    ⟨h.planRun_runPlan registry settings plan cancellation, fun events outcome hplan => ?_⟩⟩
  · obtain ⟨sink, host⟩ := start
    cases hstart
    obtain ⟨v, hloading⟩ := JobRun.Loading.of_trace rfl rfl hw hstate hrun
    exact ⟨v, hloading.concluded hrun houtcome⟩
  · cases hplan with
    | unresolved hsite => exact .inl ⟨_, hsite, rfl, rfl⟩
    | @resolved site events s hsite hrun hended =>
        obtain ⟨outcome, hcontrol⟩ := JobRun.hasEnded_iff.mp hended
        have houtcome := JobRun.outcome?_eq_some_iff.mpr hcontrol
        obtain ⟨valid, location, projection, hvalid, hlocation, hprojection, hsite', hhost⟩ :=
          makeSite_warehouse hsite hsink
        have hview : site.stagingSink? =
            some ({ StagingSink.new (.table (valid.text "target") valid.saveMode) location
              projection (valid.flag "keepStaging") h.nextRun with store := none },
                { h with nextRun := h.nextRun.next }) :=
          JobSite.stagingSink?_eq_some_iff.mpr ⟨hsite', hhost⟩
        obtain ⟨v, hloading⟩ :=
          JobRun.Loading.of_trace rfl rfl (JobSite.wiring_stages _ _) hview hrun
        obtain ⟨hv, hloads, hclears⟩ := hloading.concluded hrun houtcome
        obtain ⟨-, hhost'⟩ := JobSite.stagingSink?_eq_some_iff.mp hv
        obtain ⟨htables, hshelves, herror, hok⟩ := concludeJob_eq registry plan h.nextRun houtcome
        refine .inr ⟨valid, location, projection, _, hvalid, hlocation, hprojection, rfl, ⟨?_, ?_⟩,
          fun hfresh hpath => ?_⟩
        · intro e he
          rw [htables, hhost']
          exact hloads.failed e ((herror e).mpr he)
        · intro report hreport
          rw [htables, hhost']
          obtain ⟨receipt, hreceipt⟩ := hok.mpr ⟨report, hreport⟩
          exact hloads.completed receipt hreceipt
        · have hrooted : (location.area h.files).IsRooted := location.isRooted_area hpath
          have hclear := hclears hfresh hrooted
          have huses := (hloading.holds.tidy hfresh hrooted).uses
          rw [hshelves, hhost']
          refine ⟨fun p hp hout => ?_, fun hkeeps p hp hbelow => ?_⟩
          · rcases location.get?_area h.files huses p with hfound | hnothing
            · exact hfound.trans (hclear.outside p hp hout)
            · exact (hnothing _).trans (hnothing _).symm
          · rcases location.get?_area h.files huses p with hfound | hnothing
            · exact hfound.trans (hclear.emptied hkeeps p hp hbelow)
            · exact hnothing _

/-- A host with a script of one batch. -/
def oneFieldHost : Host :=
  { new [] with stage := { script := { items := [(0, .rows [.oneField])] } } }

/-- The registry of the scripted source and the sink that publishes in a table. -/
def oneFieldRegistry : ConnectorRegistry :=
  Registry.empty
  |>.addSource "script" ⟨.new "script", fun _ _ => .ok (.scripted .all)⟩
  |>.addSink "warehouse" ConnectorRegistry.warehouseSink

/-- A plan of these, with the table `t`. -/
def oneFieldPlan : Plan :=
  ⟨⟨"script", .empty⟩, ⟨"warehouse", KeyMap.empty.insert "target" (.string "t")⟩, none⟩

/-- The connectors of that plan, with their host. -/
def oneFieldSite : JobSite :=
  ⟨.scripted .all, .staging (.new (.table "t" .append) (.memory "") .all false ⟨0⟩),
    { oneFieldHost with nextRun := ⟨1⟩ }⟩

/-- The batch shows in the table after the job, and the store of the sink is empty again. -/
theorem loads_all_or_nothing_oneField :
    (∃ events outcome report,
      oneFieldHost.PlanRun oneFieldRegistry JobRun.oneBatchSettings oneFieldPlan {} events outcome ∧
        outcome.result = .ok report ∧
        outcome.host.tables = KeyMap.empty.insert "t" [Record.oneField]) ∧
      ∃ events s v, JobRun.Trace (JobSite.wiring (siteKind oneFieldSite)) JobRun.oneBatchSettings
          (.start oneFieldSite false none) events s ∧ s.hasEnded = true ∧
        s.state.stagingSink? = some v ∧ v.1.parts.length = 1 ∧
        ∀ p : ObjectPath, p.IsProper → p.isBelow (.ofText v.1.folder) = true →
          objectAt? (.own .empty) v p = none := by
  have hsite : oneFieldHost.makeSite oneFieldRegistry oneFieldPlan = .ok oneFieldSite := rfl
  have hback : ∀ r ∈ oneFieldBatch.toRecords, r.ReadsBack := by
    rw [toRecords_oneFieldBatch, List.forall_mem_singleton]
    exact Record.oneField_readsBack
  have hread := ((((JobRun.Trace.refl (w := JobSite.wiring (siteKind oneFieldSite))
    (c := JobRun.oneBatchSettings) (.start oneFieldSite false none)).step
      (.writer (.inl rfl) rfl)).step (.writer (.inl rfl) rfl)).step (.writer (.inl rfl) rfl)).step
      (.writer (.inl rfl) rfl)
  have hwritten := (((hread.step (.reader id rfl)).step (.reader id rfl)).step
    (.writer (.inl rfl) rfl)).step (.writer (.inl rfl) rfl)
  have hcommitting := ((hwritten.step (.reader id rfl)).step (.writer (.inl rfl) rfl)).step
    (.writer (.inl rfl) rfl)
  have hput : (Store.own .empty).put? (new []).shelves
    (Staging.partPath (jobFolder (.memory "") ⟨0⟩) 0)
    (.text oneFieldBatch.toJsonLines) = some _ := rfl
  have hpart := Staging.recordsAt?_put? hput hback
  have hcommitted := hcommitting.step (.writer (.inl rfl) (JobSite.writerMove_beginCommit rfl rfl
    (StagingSink.stagedRecords_eq_ok.mpr ⟨_, [oneFieldBatch.toRecords], rfl,
      congrArg (fun found => [found]) hpart, rfl⟩)))
  have hclosed := (hcommitted.step (.writer (.inl rfl) rfl)).step (.writer (.inl rfl) rfl)
  obtain ⟨hwiring, hplan⟩ := loads_all_or_nothing oneFieldHost oneFieldRegistry
    JobRun.oneBatchSettings oneFieldPlan {}
  refine ⟨?_, ?_⟩
  · obtain ⟨-, hruns⟩ := hplan rfl
    have hresolved : oneFieldHost.PlanRun oneFieldRegistry JobRun.oneBatchSettings oneFieldPlan {}
      _ _ := .resolved hsite hclosed rfl
    have hmade := (hruns _ _ hresolved).resolve_left (by
      rintro ⟨e, hfails, -⟩
      cases hsite.symm.trans hfails)
    obtain ⟨valid, location, projection, sink, hvalid, -, hprojection, -, hloads, -⟩ := hmade
    have hvalid' : Staging.warehouseSchema.validate oneFieldPlan.sink.options
      oneFieldRegistry.unknownOptions = .ok _ := rfl
    cases hvalid'.symm.trans hvalid
    cases hprojection
    obtain ⟨stream, hstream, -, projected, hprojected, htables⟩ := hloads.completed _ rfl
    have hstream' : some (.listed [⟨0, .batch oneFieldBatch⟩]) = some stream := hstream
    cases hstream'
    have hbatches : Stream.nonEmptyBatches (.listed [⟨0, .batch oneFieldBatch⟩]) =
        [oneFieldBatch] := by
      rw [Stream.nonEmptyBatches, Stream.items_of_next? rfl, Stream.items_of_next?_eq_none rfl]
      rfl
    rw [hbatches] at hprojected
    have hone : projected = [oneFieldBatch] := by
      cases projected with
      | nil => cases hprojected
      | cons b rest =>
          cases rest with
          | nil =>
              cases hprojected
              rfl
          | cons => cases hprojected
    subst hone
    exact ⟨_, _, _, hresolved, rfl, htables (by simpa using hback)⟩
  · obtain ⟨v, hv, -, hclears⟩ := hwiring (JobSite.wiring (siteKind oneFieldSite))
      JobSite.stagingSink? oneFieldSite false none _ _ _ "t" .append (.memory "") .all false ⟨0⟩
      none _ rfl (JobSite.wiring_stages _ _) rfl hclosed rfl
    cases hv
    have hrooted : (Store.own .empty).IsRooted := fun root hroot => by cases hroot
    have hclear := hclears (fun p _ _ => rfl) hrooted
    exact ⟨_, _, _, hclosed, rfl, rfl, rfl, fun p hp hbelow => hclear.emptied rfl p hp hbelow⟩

end Host

end BatchTransfer
