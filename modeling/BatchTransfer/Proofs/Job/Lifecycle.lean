import BatchTransfer.Proofs.Job.Termination
import Mathlib.Data.List.Chain

/-!
# What is opened is closed

Whatever the order of moves and wherever a job ends, its calls come in one order: attempts to open
the source, attempts to open the sink, the reading, the writes, the commit, the closing of the sink
and the closing of the source. `Lifecycle` says this of a log of events, together with how often
each call may be made and what must have happened before. `Ledger` is the invariant behind it,
which says for every control of the writer what the log holds so far.
-/

namespace BatchTransfer

namespace JobEvent

/-- The place of a call, and of its answer, in the order of all calls. -/
def stage : JobEvent → Nat
  | opening .source | opened .source _ => 0
  | opening .sink | opened .sink _ => 1
  | reading | read _ => 2
  | received _ | writing _ | written .. => 3
  | committing | committed _ => 4
  | closing .sink | closed .sink => 5
  | closing .source | closed .source => 6

/-- Whether an attempt is made to open the connector of a side. -/
def opens (role : Role) : JobEvent → Bool
  | opening r => r == role
  | _ => false

/-- Whether the source is asked for its stream. -/
def reads : JobEvent → Bool
  | reading => true
  | _ => false

/-- Whether the sink is asked to commit. -/
def commits : JobEvent → Bool
  | committing => true
  | _ => false

/-- Whether the connector of a side is closed. -/
def closes (role : Role) : JobEvent → Bool
  | closing r => r == role
  | _ => false

theorem eq_of_opens {role : Role} {e : JobEvent} (h : e.opens role = true) : e = .opening role := by
  cases e with
  | opening r => rw [eq_of_beq h]
  | _ => cases h

theorem eq_of_reads {e : JobEvent} (h : e.reads = true) : e = .reading := by
  cases e with
  | reading => rfl
  | _ => cases h

theorem eq_of_commits {e : JobEvent} (h : e.commits = true) : e = .committing := by
  cases e with
  | committing => rfl
  | _ => cases h

theorem eq_of_closes {role : Role} {e : JobEvent} (h : e.closes role = true) :
    e = .closing role := by
  cases e with
  | closing r => rw [eq_of_beq h]
  | _ => cases h

/-- Whether the source has failed to answer with a stream or with a batch. -/
def failsToRead : JobEvent → Bool
  | read (.error _) | received (.error _) => true
  | _ => false

/-- The batch that the sink has failed to write. -/
def unwritten? : JobEvent → Option Batch
  | written batch (.error _) => some batch
  | _ => none

/-- Whether an event may follow another directly in a job that goes on to commit: a batch that the
sink has failed to write is written again. -/
def Repeats (a b : JobEvent) : Prop := ∀ batch, a.unwritten? = some batch → b = .writing batch

end JobEvent

open JobEvent (opens reads commits closes streamRead?)

/-- The discipline of the calls of a job. Stages order the calls of different kinds, so that what
has happened at an earlier stage has happened before. -/
structure Lifecycle (maxRetries : Nat) (events : List JobEvent) : Prop where
  in_order : events.Pairwise fun a b => a.stage ≤ b.stage
  opens_le : ∀ role, events.countP (opens role) ≤ maxRetries + 1
  opened_again : ∀ role before after, events = before ++ .opening role :: after →
    .opening role ∈ before → ∃ e, before.getLast? = some (.opened role (.error e)) ∧
      (e.kind = .timeout ∨ e.kind = .transient)
  sink_opened : .opening .sink ∈ events → .opened .source (.ok ()) ∈ events
  reads_le : events.countP reads ≤ 1
  read_opened : .reading ∈ events → ∀ role, .opened role (.ok ()) ∈ events
  commits_le : events.countP commits ≤ 1
  commit_read : .committing ∈ events → (∀ e ∈ events, e.failsToRead = false) ∧
    ∃ stream, streamRead? events = some stream ∧ stream.EndsNormally
  commit_written : .committing ∈ events → events.IsChain JobEvent.Repeats
  closes_le : ∀ role, events.countP (closes role) ≤ min 1 (events.countP (opens role))

namespace JobEvent

/-- What must hold of a log for an event to be added to it. -/
def MayFollow (maxRetries : Nat) (events : List JobEvent) : JobEvent → Prop
  | opening role =>
      events.countP (opens role) ≤ maxRetries ∧
      (.opening role ∈ events → ∃ e, events.getLast? = some (.opened role (.error e)) ∧
        (e.kind = .timeout ∨ e.kind = .transient)) ∧
      (role = .sink → .opened .source (.ok ()) ∈ events)
  | reading => events.countP reads = 0 ∧ ∀ role, .opened role (.ok ()) ∈ events
  | committing =>
      events.countP commits = 0 ∧ (∀ e ∈ events, e.failsToRead = false) ∧
      (∃ stream, streamRead? events = some stream ∧ stream.EndsNormally) ∧
      events.IsChain Repeats ∧ ∀ e, events.getLast? = some e → e.unwritten? = none
  | closing role => events.countP (closes role) = 0 ∧ 0 < events.countP (opens role)
  | _ => True

end JobEvent

/-- Adding an event that is not counted. -/
theorem countP_concat {events : List JobEvent} {event : JobEvent} {p : JobEvent → Bool}
    (h : p event = false) : (events ++ [event]).countP p = events.countP p := by
  rw [List.countP_append, List.countP_singleton, h]
  rfl

namespace Lifecycle

variable {maxRetries : Nat} {events : List JobEvent} {event : JobEvent}

theorem mem_opens {role : Role} :
    .opening role ∈ events ↔ 0 < events.countP (opens role) := by
  rw [List.countP_pos_iff]
  constructor
  · exact fun h => ⟨_, h, by simp [opens]⟩
  · rintro ⟨e, he, hopens⟩
    exact JobEvent.eq_of_opens hopens ▸ he

/-- Nothing comes after the last event of an ordered log. -/
theorem stage_le_last {last : JobEvent} (h : events.Pairwise fun a b => a.stage ≤ b.stage)
    (hlast : events.getLast? = some last) (hmem : event ∈ events) : event.stage ≤ last.stage := by
  obtain ⟨init, rfl⟩ := List.getLast?_eq_some_iff.mp hlast
  rw [List.pairwise_append] at h
  rcases List.mem_append.mp hmem with hmem | hmem
  · exact h.2.2 event hmem last (List.mem_singleton_self last)
  · rw [List.mem_singleton.mp hmem]

theorem nil (maxRetries : Nat) : Lifecycle maxRetries [] where
  in_order := .nil
  opens_le := fun _ => Nat.zero_le _
  opened_again := by
    intro role before after h
    simp at h
  sink_opened := nofun
  reads_le := Nat.zero_le _
  read_opened := nofun
  commits_le := Nat.zero_le _
  commit_read := nofun
  commit_written := nofun
  closes_le := fun _ => Nat.zero_le _

/-- A log keeps the discipline when an event is added to it that may follow. -/
theorem concat (h : Lifecycle maxRetries events) (hstage : ∀ e ∈ events, e.stage ≤ event.stage)
    (hevent : event.MayFollow maxRetries events) : Lifecycle maxRetries (events ++ [event]) where
  in_order := by
    rw [List.pairwise_append]
    exact ⟨h.in_order, List.pairwise_singleton _ _, fun a ha b hb => by
      rw [List.mem_singleton.mp hb]
      exact hstage a ha⟩
  opens_le := fun role => by
    have hle := h.opens_le role
    cases event with
    | opening r =>
        by_cases hr : r = role
        · subst hr
          simpa [opens] using hevent.1
        · simpa [opens, hr] using hle
    | _ => simpa [opens] using hle
  opened_again := fun role before after hsplit hmem => by
    rcases List.eq_nil_or_concat after with rfl | ⟨after, last, rfl⟩
    · -- The attempt is the event that is added.
      obtain ⟨rfl, hlast⟩ := List.append_inj' hsplit rfl
      cases hlast
      exact hevent.2.1 hmem
    · rw [List.concat_eq_append, ← List.cons_append, ← List.append_assoc] at hsplit
      obtain ⟨hbefore, -⟩ := List.append_inj' hsplit rfl
      exact h.opened_again role before after hbefore hmem
  sink_opened := fun hmem => by
    rw [List.mem_append, List.mem_singleton] at hmem
    refine List.mem_append_left _ ?_
    rcases hmem with hmem | rfl
    · exact h.sink_opened hmem
    · exact hevent.2.2 rfl
  reads_le := by
    have hle := h.reads_le
    cases event with
    | reading => simp [reads, hevent.1]
    | _ => simpa [reads] using hle
  read_opened := fun hmem role => by
    rw [List.mem_append, List.mem_singleton] at hmem
    refine List.mem_append_left _ ?_
    rcases hmem with hmem | rfl
    · exact h.read_opened hmem role
    · exact hevent.2 role
  commits_le := by
    have hle := h.commits_le
    cases event with
    | committing => simp [commits, hevent.1]
    | _ => simpa [commits] using hle
  commit_read := fun hmem => by
    rw [List.mem_append, List.mem_singleton] at hmem
    have hread : (∀ e ∈ events, e.failsToRead = false) ∧
        ∃ stream, streamRead? events = some stream ∧ stream.EndsNormally := by
      rcases hmem with hmem | rfl
      · exact h.commit_read hmem
      · exact ⟨hevent.2.1, hevent.2.2.1⟩
    obtain ⟨hclean, stream, hstream, hnormal⟩ := hread
    refine ⟨fun e he => ?_, stream, by simp [hstream], hnormal⟩
    rcases List.mem_append.mp he with he | he
    · exact hclean e he
    · -- What is added after a commit has been entered comes at no earlier stage.
      cases List.mem_singleton.mp he
      rcases hmem with hmem | rfl
      · have hlate := hstage _ hmem
        cases event <;> first | rfl | simp [JobEvent.stage] at hlate
      · rfl
  commit_written := fun hmem => by
    rw [List.mem_append, List.mem_singleton] at hmem
    rw [List.isChain_append]
    rcases hmem with hmem | rfl
    · refine ⟨h.commit_written hmem, .singleton _, fun x hx y hy batch hbatch => ?_⟩
      -- Nor is it a failed write that comes last.
      have hlate := stage_le_last h.in_order hx hmem
      cases x <;> first | cases hbatch | simp [JobEvent.stage] at hlate
    · obtain ⟨-, -, -, hchain, hlast⟩ := hevent
      refine ⟨hchain, .singleton _, fun x hx y hy batch hbatch => ?_⟩
      rw [hlast x hx] at hbatch
      cases hbatch
  closes_le := fun role => by
    have hle := h.closes_le role
    cases event with
    | closing r =>
        by_cases hr : r = role
        · subst hr
          simpa [closes, opens, hevent.1] using hevent.2
        · simpa [closes, opens, hr] using hle
    | opening r =>
        by_cases hr : r = role
        · subst hr
          simp [closes, opens] at hle ⊢
          omega
        · simpa [closes, opens, hr] using hle
    | _ => simpa [closes, opens] using hle

end Lifecycle

/-! ### What the log holds at each control of the writer -/

/-- A log after which the job may still commit: nothing has failed but writes, and these have been
repeated. -/
structure Sound (events : List JobEvent) : Prop where
  read : ∀ e ∈ events, e.failsToRead = false
  repeated : events.IsChain JobEvent.Repeats
  written : ∀ e, events.getLast? = some e → e.unwritten? = none

/-- Whether attempts were made to open both connectors. -/
def BothOpened (events : List JobEvent) : Prop := ∀ role, 0 < events.countP (opens role)

namespace Control

variable {σ : Type}

/-- The stage at which the writer is. -/
def stage : Control σ → Nat
  | .begin => 0
  | .opening .source _ _ | .openBackoff .source _ _ => 0
  | .opening .sink _ _ | .openBackoff .sink _ _ => 1
  | .reading _ => 2
  | .receiving | .writing .. | .writeBackoff .. | .joining _ => 3
  | .committing _ => 4
  | .closing .sink _ _ => 5
  | .closing .source _ _ | .ended _ => 6

/-- Whether the log is one with which the writer comes to its control. -/
def Fits (events : List JobEvent) : Control σ → Prop
  | .begin => events = []
  | .opening role budget _ =>
      Sound events ∧ events.countP (opens role) = budget.failures + 1 ∧
        (role = .sink → 0 < events.countP (opens .source) ∧ .opened .source (.ok ()) ∈ events)
  | .openBackoff role budget _ =>
      Sound events ∧ events.countP (opens role) = budget.failures ∧ 0 < budget.failures ∧
        (role = .sink → 0 < events.countP (opens .source) ∧ .opened .source (.ok ()) ∈ events) ∧
        ∃ e, events.getLast? = some (.opened role (.error e)) ∧
          (e.kind = .timeout ∨ e.kind = .transient)
  | .reading _ | .receiving | .writing .. | .joining (.ok ()) => Sound events ∧ BothOpened events
  | .writeBackoff batch _ _ =>
      (∀ e ∈ events, e.failsToRead = false) ∧ events.IsChain JobEvent.Repeats ∧
        (∃ e, events.getLast? = some (.written batch (.error e))) ∧ BothOpened events
  | .joining (.error _) | .committing _ => BothOpened events
  | .closing .sink _ _ => BothOpened events ∧ events.countP (closes .sink) = 1
  | .closing .source _ _ =>
      0 < events.countP (opens .source) ∧ events.countP (closes .source) = 1 ∧
        events.countP (closes .sink) = min 1 (events.countP (opens .sink))
  | .ended _ => ∀ role, events.countP (closes role) = min 1 (events.countP (opens role))

end Control

namespace Sound

variable {events : List JobEvent} {event : JobEvent}

theorem nil : Sound [] := ⟨nofun, .nil, nofun⟩

/-- No failed write is left behind when an event is added to a sound log. -/
theorem repeated_concat (h : Sound events) (event : JobEvent) :
    (events ++ [event]).IsChain JobEvent.Repeats := by
  rw [List.isChain_append]
  refine ⟨h.repeated, .singleton _, fun x hx y hy batch hbatch => ?_⟩
  rw [h.written x hx] at hbatch
  cases hbatch

/-- An event that is no failure may be added to a sound log. -/
theorem concat (h : Sound events) (hread : event.failsToRead = false)
    (hwritten : event.unwritten? = none) : Sound (events ++ [event]) where
  read := by
    intro e he
    rcases List.mem_append.mp he with he | he
    · exact h.read e he
    · rw [List.mem_singleton.mp he]
      exact hread
  repeated := h.repeated_concat event
  written := by
    intro e he
    rw [List.getLast?_concat, Option.some.injEq] at he
    rw [← he]
    exact hwritten

end Sound

theorem BothOpened.append {events : List JobEvent} (h : BothOpened events)
    (more : List JobEvent) : BothOpened (events ++ more) := fun role => by
  rw [List.countP_append]
  exact Nat.add_pos_left (h role) _

/-- A log keeps the discipline, and the writer is where such a log brings it. -/
structure Ledger {σ : Type} (maxRetries : Nat) (events : List JobEvent) (control : Control σ) :
    Prop where
  lifecycle : Lifecycle maxRetries events
  within : ∀ e ∈ events, e.stage ≤ control.stage
  fits : control.Fits events

namespace Ledger

variable {σ : Type} {w : Wiring σ} {c : JobSettings} {maxRetries : Nat}
  {events more : List JobEvent} {first second : JobEvent} {control control' : Control σ}
  {s s' : JobRun σ}

/-- Nothing of a later stage has been called. -/
theorem countP_eq_zero (h : Ledger maxRetries events control) {p : JobEvent → Bool}
    (hp : ∀ e, p e = true → e = first) (hlater : control.stage < first.stage) :
    events.countP p = 0 := by
  refine List.countP_eq_zero.mpr fun e he hpe => ?_
  have hle := h.within e he
  rw [hp e hpe] at hle
  omega

/-- Nobody has been closed before the closing begins. -/
theorem closes_eq_zero (h : Ledger maxRetries events control) (hstage : control.stage < 5)
    (role : Role) : events.countP (closes role) = 0 := by
  refine h.countP_eq_zero (fun e => JobEvent.eq_of_closes) (Nat.lt_of_lt_of_le hstage ?_)
  cases role <;> simp [JobEvent.stage]

theorem quiet (h : Ledger maxRetries events control) (hstage : control.stage ≤ control'.stage)
    (hfits : control'.Fits events) : Ledger maxRetries (events ++ []) control' := by
  rw [List.append_nil]
  exact ⟨h.lifecycle, fun e he => Nat.le_trans (h.within e he) hstage, hfits⟩

/-- The ledger is kept when one event is added. -/
theorem one (h : Ledger maxRetries events control) (hlow : control.stage ≤ first.stage)
    (hhigh : first.stage ≤ control'.stage) (hfollows : first.MayFollow maxRetries events)
    (hfits : control'.Fits (events ++ [first])) :
    Ledger maxRetries (events ++ [first]) control' := by
  have hstage : ∀ e ∈ events, e.stage ≤ first.stage :=
    fun e he => Nat.le_trans (h.within e he) hlow
  refine ⟨h.lifecycle.concat hstage hfollows, fun e he => ?_, hfits⟩
  rcases List.mem_append.mp he with he | he
  · exact Nat.le_trans (hstage e he) hhigh
  · rw [List.mem_singleton.mp he]
    exact hhigh

/-- The ledger is kept when an answer and a call are added. -/
theorem two (h : Ledger maxRetries events control) (hlow : control.stage ≤ first.stage)
    (hbetween : first.stage ≤ second.stage) (hhigh : second.stage ≤ control'.stage)
    (hfirst : first.MayFollow maxRetries events)
    (hsecond : second.MayFollow maxRetries (events ++ [first]))
    (hfits : control'.Fits (events ++ [first] ++ [second])) :
    Ledger maxRetries (events ++ [first, second]) control' := by
  rw [List.append_cons]
  have hstage : ∀ e ∈ events, e.stage ≤ first.stage :=
    fun e he => Nat.le_trans (h.within e he) hlow
  have hstage' : ∀ e ∈ events ++ [first], e.stage ≤ second.stage := by
    intro e he
    rcases List.mem_append.mp he with he | he
    · exact Nat.le_trans (hstage e he) hbetween
    · rw [List.mem_singleton.mp he]
      exact hbetween
  refine ⟨(h.lifecycle.concat hstage hfirst).concat hstage' hsecond, fun e he => ?_, hfits⟩
  rcases List.mem_append.mp he with he | he
  · exact Nat.le_trans (hstage' e he) hhigh
  · rw [List.mem_singleton.mp he]
    exact hhigh

/-- Closing the sink, when both connectors have been opened and none is closed. -/
theorem closeSink (h : Ledger maxRetries events control) (hstage : control.stage < 5)
    (hopened : BothOpened events) (outcome : JobResult CommitReceipt) (call : PendingCall σ Unit) :
    Ledger maxRetries (events ++ [.closing .sink]) (.closing .sink outcome call) := by
  have hzero := h.closes_eq_zero hstage .sink
  refine h.one (Nat.le_of_lt hstage) (Nat.le_refl _) ⟨hzero, hopened .sink⟩
    ⟨hopened.append _, ?_⟩
  rw [List.countP_append, hzero]
  rfl

/-- Closing the sink after an answer, when both connectors have been opened and none is closed. -/
theorem answerAndCloseSink (h : Ledger maxRetries events control) (hstage : control.stage < 5)
    (hlow : control.stage ≤ first.stage) (hhigh : first.stage ≤ 5)
    (hfirst : first.MayFollow maxRetries events) (hcloses : closes .sink first = false)
    (hopened : BothOpened events) (outcome : JobResult CommitReceipt) (call : PendingCall σ Unit) :
    Ledger maxRetries (events ++ [first, .closing .sink]) (.closing .sink outcome call) := by
  have hzero : (events ++ [first]).countP (closes .sink) = 0 :=
    (countP_concat hcloses).trans (h.closes_eq_zero hstage .sink)
  refine h.two hlow hhigh (Nat.le_refl _) hfirst ⟨hzero, (hopened.append _) .sink⟩
    ⟨(hopened.append _).append _, ?_⟩
  rw [List.countP_append, hzero]
  rfl

/-- What the log holds once the closing of the source has begun. -/
theorem closingSource_fits (hopened : 0 < events.countP (opens .source))
    (hzero : events.countP (closes .source) = 0)
    (hsink : events.countP (closes .sink) = min 1 (events.countP (opens .sink)))
    (outcome : JobResult CommitReceipt) (call : PendingCall σ Unit) :
    (Control.closing .source outcome call).Fits (events ++ [.closing .source]) := by
  simp [Control.Fits, opens, closes, hopened, hzero, hsink]

/-- As long as the source is being opened, there is no sink, and nobody has been closed. -/
theorem unopened (h : Ledger maxRetries events control) (hstage : control.stage = 0) :
    events.countP (opens .sink) = 0 ∧ ∀ role, events.countP (closes role) = 0 :=
  ⟨h.countP_eq_zero (fun e => JobEvent.eq_of_opens) (by simp [hstage, JobEvent.stage]),
    h.closes_eq_zero (by omega)⟩

/-- A move of the writer keeps the ledger. The budget of an attempt to open bounds the attempts,
and a commit is entered with the whole stream read. -/
theorem writer_step (h : Ledger c.maxRetries events s.control) (hready : s.Ready c)
    (hstep : s.WriterStep w c more s')
    (hwhole : .committing ∈ more →
      ∃ stream, streamRead? events = some stream ∧ stream.EndsNormally) :
    Ledger c.maxRetries (events ++ more) s'.control := by
  cases hstep with
  | refuse hcontrol =>
      rw [hcontrol] at h
      have hnothing : events = [] := h.fits
      subst hnothing
      exact h.quiet (Nat.zero_le _) fun role => rfl
  | begin hcontrol =>
      rw [hcontrol] at h
      have hnothing : events = [] := h.fits
      subst hnothing
      refine h.one (Nat.le_refl _) (Nat.le_refl _) ⟨Nat.zero_le _, nofun, nofun⟩ ?_
      exact ⟨Sound.nil.concat rfl rfl, rfl, nofun⟩
  | sourceOpened hcontrol =>
      rw [hcontrol] at h
      obtain ⟨hsound, hcount, -⟩ := h.fits
      -- The sink belongs to a later stage, so no attempt has been made to open it.
      have hzero : events.countP (opens .sink) = 0 :=
        h.countP_eq_zero (fun e => JobEvent.eq_of_opens) (Nat.lt_succ_self 0)
      have hnew : (events ++ [JobEvent.opened .source (.ok ())]).countP (opens .sink) = 0 :=
        (countP_concat rfl).trans hzero
      refine h.two (Nat.le_refl _) (Nat.zero_le _) (Nat.le_refl _) trivial
        ⟨hnew ▸ Nat.zero_le _, fun hmem => ?_, by simp⟩ ⟨?_, ?_, fun _ => ⟨?_, by simp⟩⟩
      · rw [Lifecycle.mem_opens, hnew] at hmem
        cases hmem
      · exact (hsound.concat rfl rfl).concat rfl rfl
      · rw [List.countP_append, hnew]
        rfl
      · simp [List.countP_append, hcount]
  | sinkOpened hcontrol =>
      rw [hcontrol] at h
      obtain ⟨hsound, hcount, hsource⟩ := h.fits
      obtain ⟨hopened, hanswered⟩ := hsource rfl
      have hzero : events.countP JobEvent.reads = 0 :=
        h.countP_eq_zero (fun e => JobEvent.eq_of_reads) (Nat.lt_succ_self 1)
      refine h.two (Nat.le_refl _) (Nat.le_succ _) (Nat.le_refl _) trivial
        ⟨by simp [hzero, JobEvent.reads], fun role => ?_⟩
        ⟨(hsound.concat rfl rfl).concat rfl rfl, fun role => ?_⟩
      · cases role <;> simp [hanswered]
      · cases role <;> simp [opens, hcount, hopened]
  | @openRepeated role budget call state e hcontrol _ _ hrepeat =>
      rw [hcontrol] at h
      obtain ⟨hsound, hcount, hsource⟩ := h.fits
      have hkind : e.kind = .timeout ∨ e.kind = .transient := by
        unfold ConnectorError.isRetryableOnOpen at hrepeat
        split at hrepeat <;> simp_all
      refine h.one (by cases role <;> exact Nat.le_refl _) (by cases role <;> exact Nat.le_refl _)
        trivial ⟨hsound.concat rfl rfl, ?_, Nat.succ_pos _, fun hrole => ?_, e, by simp, hkind⟩
      · simp [opens, hcount, RetryBudget.spend]
      · obtain ⟨hopened, hanswered⟩ := hsource hrole
        exact ⟨by simpa [opens] using hopened, List.mem_append_left _ hanswered⟩
  | @openGivenUp role budget call state e hcontrol =>
      rw [hcontrol] at h
      obtain ⟨-, hcount, hsource⟩ := h.fits
      cases role with
      | source =>
          -- No sink has been touched, so the source alone is closed.
          obtain ⟨hnone, hzero⟩ := h.unopened rfl
          refine h.two (Nat.le_refl _) (Nat.zero_le _) (Nat.le_refl _) trivial ⟨?_, ?_⟩
            (closingSource_fits ?_ ?_ ?_ _ _) <;>
          simp [opens, closes, hzero, hnone, hcount]
      | sink =>
          refine h.answerAndCloseSink (by simp [Control.stage]) (Nat.le_refl _)
            (by simp [JobEvent.stage]) (by trivial) rfl ?_ _ _
          intro role
          cases role with
          | source => exact (hsource rfl).1
          | sink => omega
  | @openCancelled role budget due hcontrol =>
      rw [hcontrol] at h
      obtain ⟨-, hcount, hpos, hsource, -⟩ := h.fits
      cases role with
      | source =>
          obtain ⟨hnone, hzero⟩ := h.unopened rfl
          exact h.one (Nat.zero_le _) (Nat.le_refl _) ⟨hzero .source, by omega⟩
            (closingSource_fits (by omega) (hzero .source) (by simp [hzero, hnone]) _ _)
      | sink =>
          refine h.closeSink (by simp [Control.stage]) ?_ _ _
          intro role
          cases role with
          | source => exact (hsource rfl).1
          | sink => omega
  | @openAgain role budget due hcontrol =>
      -- The failures in the budget are the attempts so far, and it allows one more.
      obtain ⟨-, hbudget⟩ := hready.budget budget (by rw [hcontrol]; rfl)
      rw [hcontrol] at h
      obtain ⟨hsound, hcount, -, hsource, hfailed⟩ := h.fits
      refine h.one (by cases role <;> exact Nat.le_refl _) (by cases role <;> exact Nat.le_refl _)
        ⟨hcount ▸ hbudget, fun _ => hfailed, fun hrole => (hsource hrole).2⟩
        ⟨hsound.concat rfl rfl, ?_, fun hrole => ?_⟩
      · simp [opens, hcount]
      · obtain ⟨hopened, hanswered⟩ := hsource hrole
        subst hrole
        exact ⟨by simpa [opens] using hopened, List.mem_append_left _ hanswered⟩
  | readStarted hcontrol =>
      rw [hcontrol] at h
      obtain ⟨hsound, hopened⟩ := h.fits
      exact h.one (Nat.le_refl _) (Nat.le_succ _) trivial
        ⟨hsound.concat rfl rfl, hopened.append _⟩
  | readFailed hcontrol =>
      rw [hcontrol] at h
      exact h.answerAndCloseSink (by simp [Control.stage]) (Nat.le_refl _)
            (by simp [JobEvent.stage]) (by trivial) rfl h.fits.2 _ _
  | transferCancelled hcontrol =>
      rw [hcontrol] at h
      exact h.quiet (Nat.le_refl _) h.fits.2
  | failureReceived hcontrol =>
      rw [hcontrol] at h
      exact h.one (Nat.le_refl _) (Nat.le_refl _) trivial (h.fits.2.append _)
  | @emptyReceived batch rest hcontrol =>
      rw [hcontrol] at h
      obtain ⟨hsound, hopened⟩ := h.fits
      change Ledger _ _ s.control
      rw [hcontrol]
      exact h.one (Nat.le_refl _) (Nat.le_refl _) trivial
        ⟨hsound.concat rfl rfl, hopened.append _⟩
  | batchReceived hcontrol =>
      rw [hcontrol] at h
      obtain ⟨hsound, hopened⟩ := h.fits
      exact h.two (Nat.le_refl _) (Nat.le_refl _) (Nat.le_refl _) trivial trivial
        ⟨(hsound.concat rfl rfl).concat rfl rfl, (hopened.append _).append _⟩
  | drained hcontrol =>
      rw [hcontrol] at h
      exact h.quiet (Nat.le_refl _) h.fits
  | acknowledged hcontrol =>
      rw [hcontrol] at h
      obtain ⟨hsound, hopened⟩ := h.fits
      exact h.one (Nat.le_refl _) (Nat.le_refl _) trivial
        ⟨hsound.concat rfl rfl, hopened.append _⟩
  | @writeRepeated batch budget call state e hcontrol =>
      rw [hcontrol] at h
      obtain ⟨hsound, hopened⟩ := h.fits
      refine h.one (Nat.le_refl _) (Nat.le_refl _) trivial
        ⟨fun event hevent => ?_, hsound.repeated_concat _, ⟨e, by simp⟩, hopened.append _⟩
      rcases List.mem_append.mp hevent with hevent | hevent
      · exact hsound.read event hevent
      · rw [List.mem_singleton.mp hevent]
        rfl
  | writeGivenUp hcontrol =>
      rw [hcontrol] at h
      exact h.one (Nat.le_refl _) (Nat.le_refl _) trivial (h.fits.2.append _)
  | writeCancelled hcontrol =>
      rw [hcontrol] at h
      exact h.quiet (Nat.le_refl _) h.fits.2.2.2
  | @writeAgain batch budget due hcontrol =>
      rw [hcontrol] at h
      obtain ⟨hread, hchain, ⟨e, hlast⟩, hopened⟩ := h.fits
      refine h.one (Nat.le_refl _) (Nat.le_refl _) trivial ⟨⟨?_, ?_, by simp [JobEvent.unwritten?]⟩,
        hopened.append _⟩
      · simpa [JobEvent.failsToRead, or_imp, forall_and] using hread
      · -- The write that failed last is that of the batch which is now written again.
        rw [List.isChain_append]
        refine ⟨hchain, .singleton _, fun x hx y hy batch' hbatch => ?_⟩
        rw [Option.mem_def, hlast, Option.some.injEq] at hx
        subst hx
        cases hbatch
        simpa using hy.symm
  | joinedAfterFailure hcontrol =>
      rw [hcontrol] at h
      exact h.closeSink (by simp [Control.stage]) h.fits _ _
  | joinedBroken hcontrol | joinedCancelled hcontrol =>
      rw [hcontrol] at h
      exact h.closeSink (by simp [Control.stage]) h.fits.2 _ _
  | commit hcontrol =>
      rw [hcontrol] at h
      obtain ⟨hsound, hopened⟩ := h.fits
      have hzero : events.countP commits = 0 :=
        h.countP_eq_zero (fun e => JobEvent.eq_of_commits) (Nat.lt_succ_self 3)
      exact h.one (Nat.le_succ _) (Nat.le_refl _)
        ⟨hzero, hsound.read, hwhole (List.mem_singleton_self _), hsound.repeated, hsound.written⟩
        (hopened.append _)
  | committed hcontrol =>
      rw [hcontrol] at h
      exact h.answerAndCloseSink (by simp [Control.stage]) (Nat.le_refl _)
            (by simp [JobEvent.stage]) (by trivial) rfl h.fits _ _
  | sinkClosed hcontrol =>
      rw [hcontrol] at h
      obtain ⟨hopened, hclosed⟩ := h.fits
      have hsink := hopened .sink
      have hzero : events.countP (closes .source) = 0 :=
        h.countP_eq_zero (fun e => JobEvent.eq_of_closes) (Nat.lt_succ_self 5)
      have hclosed' : (events ++ [JobEvent.closed .sink]).countP (closes .source) = 0 :=
        (countP_concat rfl).trans hzero
      have hopened' : BothOpened (events ++ [.closed .sink]) := hopened.append _
      refine h.two (Nat.le_refl _) (Nat.le_succ _) (Nat.le_refl _) trivial
        ⟨hclosed', hopened' .source⟩ (closingSource_fits (hopened' .source) hclosed' ?_ _ _)
      rw [countP_concat (by rfl), countP_concat (by rfl)]
      omega
  | sourceClosed hcontrol =>
      rw [hcontrol] at h
      obtain ⟨hopened, hclosed, hsink⟩ := h.fits
      refine h.one (Nat.le_refl _) (Nat.le_refl _) trivial fun role => ?_
      rw [countP_concat (by rfl), countP_concat (by rfl)]
      cases role with
      | source => omega
      | sink => exact hsink

/-- A step keeps the ledger. -/
theorem step (h : Ledger c.maxRetries events s.control) (hready : s.Ready c)
    (hdelivery : Delivery s.cancelled events s) (hstep : s.Step w c more s') :
    Ledger c.maxRetries (events ++ more) s'.control := by
  cases hstep with
  | @writer t seen hseen hmove =>
      have hwriter : (s.seeing seen).WriterStep w c _ t := .of_move hmove
      have hseeing : Ledger c.maxRetries events (s.seeing seen).control := h
      have hkept : Ledger c.maxRetries _ t.control :=
        hseeing.writer_step (hready.seeing seen) hwriter fun hcommit => by
          obtain ⟨-, stream, hstream, hnormal, -⟩ :=
            hdelivery.commit_step (.writer hseen hmove) hcommit
          exact ⟨stream, hstream, hnormal⟩
      exact hkept
  | reader hseen hmove =>
      rw [List.append_nil]
      cases JobRun.ReaderStep.of_move hmove <;> exact h
  | cancel | elapse =>
      rw [List.append_nil]
      exact h

/-- The ledger is kept in every run. -/
theorem of_trace {state : σ} {before : Bool} {cancelAt : Option Nat}
    (hrun : JobRun.Trace w c (.start state before cancelAt) events s) :
    s.Ready c ∧ Ledger c.maxRetries events s.control := by
  induction hrun with
  | refl => exact ⟨.start state before cancelAt, .nil _, nofun, rfl⟩
  | step hrun hstep ih =>
      obtain ⟨hready, hledger⟩ := ih
      exact ⟨hready.step hstep, hledger.step hready (.of_trace hrun) hstep⟩

/-- At the end, whatever was opened has been closed. -/
theorem closes_eq (h : Ledger maxRetries events s.control) (hended : s.hasEnded = true)
    (role : Role) : events.countP (closes role) = min 1 (events.countP (opens role)) := by
  obtain ⟨outcome, hcontrol⟩ := JobRun.hasEnded_iff.mp hended
  rw [hcontrol] at h
  exact h.fits role

end Ledger

namespace Host

/-- The calls of a job keep the discipline at every moment of every run, whatever its connectors do
and whenever it is cancelled, and when it has ended each side has been closed once that an attempt
was made to open, and no other. So it is in every run of every plan, of which the one that is
executed is one; and nothing at all is called unless both connectors could be made. -/
theorem keeps_lifecycle (h : Host) (registry : ConnectorRegistry) (settings : JobSettings)
    (plan : Plan) (cancellation : Cancellation) :
    (∀ {σ : Type} (w : Wiring σ) (state : σ) (before : Bool) (cancelAt : Option Nat)
      (events : List JobEvent) (s : JobRun σ),
      JobRun.Trace w settings (.start state before cancelAt) events s →
        Lifecycle settings.maxRetries events ∧
          (s.hasEnded = true →
            ∀ role, events.countP (closes role) = min 1 (events.countP (opens role)))) ∧
      (∃ events, h.PlanRun registry settings plan cancellation events
        (h.runPlan registry settings plan cancellation)) ∧
      ∀ events outcome, h.PlanRun registry settings plan cancellation events outcome →
        Lifecycle settings.maxRetries events ∧
          (∀ role, events.countP (closes role) = min 1 (events.countP (opens role))) ∧
          (events ≠ [] →
            (∃ source, registry.makeSource h.nextRun plan.source.kind plan.source.options =
              .ok source) ∧
            ∃ sink, registry.makeSink h.nextRun plan.sink.kind plan.sink.options = .ok sink) := by
  refine ⟨fun w state before cancelAt events s hrun => ?_,
    h.planRun_runPlan registry settings plan cancellation, fun events outcome hplan => ?_⟩
  · obtain ⟨-, hledger⟩ := Ledger.of_trace hrun
    exact ⟨hledger.lifecycle, hledger.closes_eq⟩
  · cases hplan with
    | unresolved => exact ⟨.nil _, fun role => rfl, fun hevents => absurd rfl hevents⟩
    | resolved hsite hrun hended =>
        obtain ⟨-, hledger⟩ := Ledger.of_trace hrun
        refine ⟨hledger.lifecycle, hledger.closes_eq hended, fun _ => ?_⟩
        unfold makeSite at hsite
        split at hsite
        · cases hsite
        · split at hsite
          · cases hsite
          · exact ⟨⟨_, ‹_›⟩, _, ‹_›⟩

/-- The registry of a source whose server cannot be reached, and of a sink that prints. -/
def noServerRegistry : ConnectorRegistry :=
  Registry.empty
  |>.addSource "db" ⟨.new "db", fun _ _ => .ok (.remote "db")⟩
  |>.addSink "log" ⟨.new "log", fun _ _ => .ok (.remote "log" .direct)⟩

/-- A plan of these two. -/
def noServerPlan : Plan := ⟨⟨"db", .empty⟩, ⟨"log", .empty⟩, none⟩

/-- The connectors of that plan, with their host. -/
def noServerSite : JobSite := ⟨.remote "db", .remote "log" .direct, { new [] with nextRun := ⟨1⟩ }⟩

/-- Where the source cannot be opened, it is closed all the same, and the sink is left alone. Where
a batch is written at the second attempt, there is one commit, and both are closed. -/
theorem keeps_lifecycle_noServer :
    (∃ events outcome,
      (new []).PlanRun noServerRegistry JobRun.oneBatchSettings noServerPlan {} events outcome ∧
        Lifecycle 1 events ∧ events.countP (opens .source) = 1 ∧
        events.countP (closes .source) = 1 ∧ events.countP (opens .sink) = 0 ∧
        events.countP (closes .sink) = 0) ∧
      ∃ events s, JobRun.Trace JobRun.oneBatchWiring JobRun.oneBatchSettings
          (.start ([], 0) false none) events s ∧ s.hasEnded = true ∧ Lifecycle 1 events ∧
        events.countP commits = 1 ∧ ∀ role, events.countP (closes role) = 1 := by
  obtain ⟨hwiring, -, hplan⟩ := keeps_lifecycle (new []) noServerRegistry JobRun.oneBatchSettings
    noServerPlan {}
  refine ⟨?_, ?_⟩
  · have hsite : (new []).makeSite noServerRegistry noServerPlan = .ok noServerSite := rfl
    have hrun := (((JobRun.Trace.refl (w := JobSite.wiring (siteKind noServerSite))
      (c := JobRun.oneBatchSettings) (.start noServerSite false none)).step
        (.writer (.inl rfl) rfl)).step (.writer (.inl rfl) rfl)).step (.writer (.inl rfl) rfl)
    have hresolved : (new []).PlanRun noServerRegistry JobRun.oneBatchSettings noServerPlan {}
      _ _ := .resolved hsite hrun rfl
    obtain ⟨hlifecycle, hcloses, -⟩ := hplan _ _ hresolved
    exact ⟨_, _, hresolved, hlifecycle, rfl, hcloses .source, rfl, hcloses .sink⟩
  · have hread := ((((JobRun.Trace.refl (w := JobRun.oneBatchWiring) (c := JobRun.oneBatchSettings)
      (.start ([], 0) false none)).step (.writer (.inl rfl) rfl)).step
      (.writer (.inl rfl) rfl)).step (.writer (.inl rfl) rfl)).step (.writer (.inl rfl) rfl)
    have hsent := ((hread.step (.reader id rfl)).step (.reader id rfl)).step
      (.writer (.inl rfl) rfl)
    have hended := hsent.step (.reader id rfl)
    have hagain := (hended.step (.writer (.inl rfl) rfl)).step (.writer (.inl rfl) rfl)
    have hcommitting := ((hagain.step (.writer (.inl rfl) rfl)).step (.writer (.inl rfl) rfl)).step
      (.writer (.inl rfl) rfl)
    have hclosed := ((hcommitting.step (.writer (.inl rfl) rfl)).step (.writer (.inl rfl) rfl)).step
      (.writer (.inl rfl) rfl)
    obtain ⟨hlifecycle, hcloses⟩ := hwiring _ _ _ _ _ _ hclosed
    refine ⟨_, _, hclosed, rfl, hlifecycle, rfl, fun role => ?_⟩
    rw [hcloses rfl role]
    cases role <;> rfl

end Host

end BatchTransfer
