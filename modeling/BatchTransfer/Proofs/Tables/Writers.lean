import BatchTransfer.Proofs.Tables.Direct

/-!
# Sinks that want one table for themselves

Several sinks may be told to fail where their target exists and be given the same target, which does
not exist yet. Each looks for the table when it is opened, and the table comes into being with the
first write or commit of any of them. `Interleaving` is any order of their calls. What the table holds
at every moment is known from the calls (`Interleaving.get?_target`), and so is the answer to every
opening; the main theorem, `Interleaving.excludes_late_openings`, says which sinks are kept from the
table, and that sinks share it only if they had all been opened before it was there.
-/

namespace BatchTransfer

/-- A call of a sink of a table, with its answer. -/
inductive TableCall where
  | opened (answer : ConnectorResult Unit)
  | written (batch : Batch) (answer : ConnectorResult Acknowledgement)
  | committed (answer : ConnectorResult CommitReceipt)

namespace TableCall

def isOpening : TableCall → Bool
  | opened _ => true
  | _ => false

/-- Whether there is a table after the call: a successful write or commit leaves one. -/
def leavesTable : TableCall → Bool
  | written _ (.ok _) | committed (.ok _) => true
  | _ => false

/-- The rows that a call has added to the table. -/
def addedRows (projection : Projection) : TableCall → List Record
  | written batch (.ok _) =>
      match batch.project projection with
      | .ok projected => projected.toRecords
      | .error _ => []
  | _ => []

theorem addedRows_eq_nil {call : TableCall} {p : Projection} (h : call.leavesTable = false) :
    call.addedRows p = [] := by
  cases call with
  | written batch answer =>
      cases answer with
      | ok => cases h
      | error => rfl
  | _ => rfl

end TableCall

namespace MemorySink

/-- One call of a sink, with what it makes of the sink and of the tables. -/
inductive CallStep (sink : MemorySink) (t : Tables) : TableCall → MemorySink × Tables → Prop where
  | opened {answer : ConnectorResult Unit} {after : MemorySink × Tables}
      (h : sink.openTarget t = (after, answer)) : CallStep sink t (.opened answer) after
  | written (batch : Batch) {answer : ConnectorResult Acknowledgement}
      {after : MemorySink × Tables} (h : sink.write t batch = (after, answer)) :
      CallStep sink t (.written batch answer) after
  | committed {answer : ConnectorResult CommitReceipt} {after : MemorySink × Tables}
      (h : sink.commit t = (after, answer)) : CallStep sink t (.committed answer) after

variable {ι : Type}

/-- Calls of several sinks on the same tables in any order, each with the sink that is called. A sink
is opened until that succeeds, and is then written to and committed. -/
inductive Interleaving (start : (ι → MemorySink) × Tables) :
    List (ι × TableCall) → (ι → MemorySink) × Tables → Prop where
  | refl : Interleaving start [] start
  | step {calls : List (ι × TableCall)} {i : ι} {call : TableCall}
      {s s' : (ι → MemorySink) × Tables} (hrun : Interleaving start calls s)
      (hturn : (i, .opened (.ok ())) ∈ calls ↔ call.isOpening = false)
      (hcall : CallStep (s.1 i) s.2 call (s'.1 i, s'.2)) (hothers : ∀ j, j ≠ i → s'.1 j = s.1 j) :
      Interleaving start (calls ++ [(i, call)]) s'

/-- Sinks that write to one target, which must not exist. -/
def rivals (target : String) (projection : ι → Projection) (i : ι) : MemorySink :=
  ⟨target, .errorIfExists, projection i, false, 0⟩

/-- What the sinks answer that are opened when the target exists. -/
def targetExists (target : String) : ConnectorError :=
  ⟨.fatal, s!"memory table '{target}' already exists"⟩

/-- Whether any of the calls has left a table. -/
def anyLeavesTable (calls : List (ι × TableCall)) : Bool := calls.any (·.2.leavesTable)

/-- The rows that calls have added, in order. -/
def allAddedRows (projection : ι → Projection) (calls : List (ι × TableCall)) : List Record :=
  calls.flatMap fun c => c.2.addedRows (projection c.1)

theorem allAddedRows_eq_nil {projection : ι → Projection} {calls : List (ι × TableCall)}
    (h : anyLeavesTable calls = false) : allAddedRows projection calls = [] := by
  rw [allAddedRows, List.flatMap_eq_nil_iff]
  intro c hc
  exact TableCall.addedRows_eq_nil (eq_false_of_ne_true (List.any_eq_false.mp h c hc))

/-- Whether one of the sinks has added rows. -/
def HasAdded (projection : ι → Projection) (calls : List (ι × TableCall)) (i : ι) : Prop :=
  ∃ call, (i, call) ∈ calls ∧ call.addedRows (projection i) ≠ []

/-! ### One call -/

section Call

variable {target : String} {projection : ι → Projection} {i : ι} {sink sink' : MemorySink}
  {t t' : Tables} {call : TableCall}

/-- A sink has its settings throughout; it counts rows only. -/
def IsRival (target : String) (projection : ι → Projection) (i : ι) (sink : MemorySink) : Prop :=
  { sink with rows := 0 } = rivals target projection i

namespace IsRival

theorem target_eq (h : IsRival target projection i sink) : sink.target = target :=
  (congrArg MemorySink.target h :)

theorem projection_eq (h : IsRival target projection i sink) : sink.projection = projection i :=
  (congrArg MemorySink.projection h :)

theorem discards_eq (h : IsRival target projection i sink) : sink.discards = false :=
  (congrArg MemorySink.discards h :)

theorem openTarget_eq (h : IsRival target projection i sink) :
    sink.openTarget t =
      ((sink, t), if t.contains target then .error (targetExists target) else .ok ()) := by
  have hmode : sink.saveMode = .errorIfExists := (congrArg MemorySink.saveMode h :)
  simp only [openTarget, hmode, h.target_eq, targetExists]
  split <;> rfl

/-- A call keeps the settings. An opening changes nothing; every other adds its rows, and there is a
table after it just if there was one before or the call leaves one. -/
theorem call_step (h : IsRival target projection i sink)
    (hcall : CallStep sink t call (sink', t')) :
    IsRival target projection i sink' ∧
      t'.get? target = if call.leavesTable then
        some ((t.get? target).getD [] ++ call.addedRows (projection i)) else t.get? target := by
  have hkeeps : ¬ sink.discards = true := by simp [h.discards_eq]
  cases hcall with
  | opened hopen =>
      rw [h.openTarget_eq] at hopen
      cases hopen
      exact ⟨h, rfl⟩
  | @written batch answer _ hwrite =>
      rw [write, if_neg hkeeps] at hwrite
      cases hproject : batch.project sink.projection with
      | error e =>
          rw [hproject] at hwrite
          cases hwrite
          exact ⟨h, rfl⟩
      | ok projected =>
          rw [hproject] at hwrite
          cases hwrite
          rw [h.projection_eq] at hproject
          exact ⟨h, by simp [TableCall.leavesTable, TableCall.addedRows, hproject, h.target_eq]⟩
  | committed hcommit =>
      rw [commit, if_neg hkeeps] at hcommit
      cases hcommit
      exact ⟨h, by simp [TableCall.leavesTable, TableCall.addedRows, Tables.ensure, h.target_eq]⟩

end IsRival

end Call

namespace Interleaving

variable {start s : (ι → MemorySink) × Tables} {calls before after : List (ι × TableCall)} {i : ι}
  {call : TableCall} {target : String} {projection : ι → Projection} {t : Tables}

/-- Every call is made where the calls before it have led. -/
theorem exists_before (hrun : Interleaving start calls s)
    (hcalls : calls = before ++ (i, call) :: after) :
    ∃ s₁ s₂ : (ι → MemorySink) × Tables, Interleaving start before s₁ ∧
      CallStep (s₁.1 i) s₁.2 call (s₂.1 i, s₂.2) ∧
        ((i, .opened (.ok ())) ∈ before ↔ call.isOpening = false) := by
  induction hrun generalizing after with
  | refl => simp at hcalls
  | @step calls j last s s' hrun hturn hcall hothers ih =>
      cases List.eq_nil_or_concat after with
      | inl hnil =>
          subst hnil
          obtain ⟨rfl, hlast⟩ := List.append_inj' hcalls rfl
          cases hlast
          exact ⟨s, s', hrun, hcall, hturn⟩
      | inr hconcat =>
          obtain ⟨rest, c, rfl⟩ := hconcat
          rw [List.concat_eq_append, ← List.cons_append, ← List.append_assoc] at hcalls
          exact ih (List.append_inj' hcalls rfl).1

/-- The sinks keep their settings, and the target exists just after a successful write or commit;
then it holds the rows that have been added, in order. -/
theorem get?_target (habsent : t.get? target = none)
    (hrun : Interleaving (rivals target projection, t) calls s) :
    (∀ i, IsRival target projection i (s.1 i)) ∧
      s.2.get? target = if anyLeavesTable calls then some (allAddedRows projection calls) else none
        := by
  induction hrun with
  | refl => exact ⟨fun _ => rfl, habsent⟩
  | @step calls i call s s' hrun hturn hcall hothers ih =>
      obtain ⟨hrivals, htarget⟩ := ih
      obtain ⟨hrival, htarget'⟩ := (hrivals i).call_step hcall
      refine ⟨fun j => ?_, ?_⟩
      · by_cases hj : j = i
        · exact hj ▸ hrival
        · exact hothers j hj ▸ hrivals j
      · have hany : anyLeavesTable (calls ++ [(i, call)]) =
            (anyLeavesTable calls || call.leavesTable) := by simp [anyLeavesTable]
        have hrows : allAddedRows projection (calls ++ [(i, call)]) =
            allAddedRows projection calls ++ call.addedRows (projection i) := by
          simp [allAddedRows]
        rw [htarget', htarget, hany, hrows]
        cases hleaves : call.leavesTable with
        | false => simp [TableCall.addedRows_eq_nil hleaves]
        | true =>
            cases hthere : anyLeavesTable calls with
            | true => simp
            | false => simp [allAddedRows_eq_nil hthere]

/-- An opening succeeds just if no call before it has left a table. -/
theorem answer_eq {answer : ConnectorResult Unit} (habsent : t.get? target = none)
    (hrun : Interleaving (rivals target projection, t) calls s)
    (hcalls : calls = before ++ (i, .opened answer) :: after) :
    answer = if anyLeavesTable before then .error (targetExists target) else .ok () := by
  obtain ⟨s₁, s₂, hbefore, hcall, -⟩ := hrun.exists_before hcalls
  obtain ⟨hrivals, htarget⟩ := hbefore.get?_target habsent
  have hthere : s₁.2.contains target = anyLeavesTable before := by
    rw [KeyMap.contains, htarget]
    cases anyLeavesTable before <;> rfl
  generalize (s₂.1 i, s₂.2) = ended at hcall
  cases hcall with
  | opened hopen =>
      rw [(hrivals i).openTarget_eq, hthere] at hopen
      exact (Prod.mk.inj hopen).2.symm

/-- A sink that has been called for anything else has been opened before, when there was no table. -/
theorem exists_opened (habsent : t.get? target = none)
    (hrun : Interleaving (rivals target projection, t) calls s) (hmem : (i, call) ∈ calls)
    (hcall : call.isOpening = false) :
    ∃ before after, calls = before ++ (i, .opened (.ok ())) :: after ∧
      anyLeavesTable before = false := by
  obtain ⟨first, rest, hcalls⟩ := List.append_of_mem hmem
  obtain ⟨s₁, s₂, -, -, hturn⟩ := hrun.exists_before hcalls
  obtain ⟨before, between, rfl⟩ := List.append_of_mem (hturn.mpr hcall)
  rw [List.append_assoc, List.cons_append] at hcalls
  have hanswer := hrun.answer_eq habsent hcalls
  refine ⟨before, _, hcalls, ?_⟩
  cases hthere : anyLeavesTable before with
  | false => rfl
  | true =>
      rw [hthere, if_pos rfl] at hanswer
      cases hanswer

/-- A sink that is first opened when there is a table is never called for anything else. -/
theorem isOpening_of_late (habsent : t.get? target = none)
    (hrun : Interleaving (rivals target projection, t) calls s)
    {answer : ConnectorResult Unit} (hcalls : calls = before ++ (i, .opened answer) :: after)
    (hthere : anyLeavesTable before = true) (hmem : (i, call) ∈ calls) : call.isOpening = true := by
  cases hopening : call.isOpening with
  | true => rfl
  | false =>
      obtain ⟨first, rest, hcalls', hnone⟩ := hrun.exists_opened habsent hmem hopening
      obtain ⟨s₁, s₂, -, -, hturn⟩ := hrun.exists_before hcalls
      have hfresh : (i, .opened (.ok ())) ∉ before := fun hmem => by cases hturn.mp hmem
      -- The opening that succeeded came before there was a table, so it is among the calls before.
      obtain ⟨between, rfl, -⟩ | ⟨between, rfl, hrest⟩ :=
        List.append_eq_append_iff.mp (hcalls.symm.trans hcalls')
      · rw [anyLeavesTable, List.any_append, ← anyLeavesTable, hthere] at hnone
        cases hnone
      · cases between with
        | nil =>
            rw [List.append_nil, hnone] at hthere
            cases hthere
        | cons c between =>
            cases hrest
            exact absurd (List.mem_append_right _ List.mem_cons_self) hfresh

/-! ### Who shares a table -/

/-- Sinks that may not find their common target, and of which none does when the first is called, are
called in any order. The target exists just from the first successful write or commit on, and holds
the rows that have been added, in order. A sink that is opened before that is not kept from the
table; one that is opened after it fails, is never called for anything else and adds nothing. So two
sinks have rows in the table only where both had been opened before there was one. -/
theorem excludes_late_openings (habsent : t.get? target = none)
    (hrun : Interleaving (rivals target projection, t) calls s) :
    (s.2.get? target =
      if anyLeavesTable calls then some (allAddedRows projection calls) else none) ∧
    (∀ before i answer after, calls = before ++ (i, .opened answer) :: after →
      (anyLeavesTable before = false → answer = .ok ()) ∧
      (anyLeavesTable before = true → answer = .error (targetExists target) ∧
        (∀ call, (i, call) ∈ calls → call.isOpening = true) ∧ ¬ HasAdded projection calls i)) ∧
    ∀ i, HasAdded projection calls i → ∃ before after,
      calls = before ++ (i, .opened (.ok ())) :: after ∧ anyLeavesTable before = false := by
  have hadded {i : ι} (h : HasAdded projection calls i) :
      ∃ call, (i, call) ∈ calls ∧ call.isOpening = false := by
    obtain ⟨call, hmem, hrows⟩ := h
    cases call with
    | written => exact ⟨_, hmem, rfl⟩
    | opened | committed => exact absurd rfl hrows
  obtain ⟨-, htarget⟩ := hrun.get?_target habsent
  refine ⟨htarget, ?_, ?_⟩
  · intro before i answer after hcalls
    have hanswer := hrun.answer_eq habsent hcalls
    refine ⟨fun hnone => by rw [hanswer, hnone, if_neg Bool.false_ne_true], fun hthere => ?_⟩
    have hopenings {call : TableCall} (hmem : (i, call) ∈ calls) : call.isOpening = true :=
      hrun.isOpening_of_late habsent hcalls hthere hmem
    refine ⟨by rw [hanswer, if_pos hthere], fun call hmem => hopenings hmem, fun hrows => ?_⟩
    obtain ⟨call, hmem, hcall⟩ := hadded hrows
    rw [hopenings hmem] at hcall
    cases hcall
  · intro i hrows
    obtain ⟨call, hmem, hcall⟩ := hadded hrows
    exact hrun.exists_opened habsent hmem hcall

/-- One more call of one of the sinks. -/
theorem concat [DecidableEq ι] {sink : MemorySink} {t' : Tables}
    (hrun : Interleaving start calls s) (hcall : CallStep (s.1 i) s.2 call (sink, t'))
    (hturn : (i, .opened (.ok ())) ∈ calls ↔ call.isOpening = false) :
    Interleaving start (calls ++ [(i, call)]) (Function.update s.1 i sink, t') := by
  refine hrun.step hturn ?_ fun j hj => Function.update_of_ne hj _ _
  show CallStep (s.1 i) s.2 call (Function.update s.1 i sink i, t')
  rw [Function.update_self]
  exact hcall

/-- Two sinks that write to the table `t`. -/
def twoRivals : Bool → MemorySink := rivals "t" fun _ => .all

/-- The batch that one of the two writes. -/
def rivalBatch (i : Bool) : Batch := ⟨⟨[⟨"x", .boolean, false⟩]⟩, [[.bool i]]⟩

/-- The second of two sinks is opened after the first has written, and fails. -/
theorem excludes_late_openings_second :
    ∃ calls s, Interleaving (twoRivals, .empty) calls s ∧
      s.2.get? "t" = some (rivalBatch false).toRecords ∧
      (true, .opened (.error (targetExists "t"))) ∈ calls ∧
      ¬ HasAdded (fun _ => .all) calls true := by
  have hstart : Interleaving (twoRivals, .empty) [] (twoRivals, .empty) := .refl
  have hopened := hstart.concat (i := false)
    (.opened rfl) (by simp [TableCall.isOpening])
  have hwritten := hopened.concat (i := false) (.written (rivalBatch false) rfl)
    (by simp [TableCall.isOpening])
  have hrefused := hwritten.concat (i := true) (.opened rfl) (by simp [TableCall.isOpening])
  obtain ⟨htable, hopenings, -⟩ := hrefused.excludes_late_openings rfl
  obtain ⟨-, hlate⟩ := hopenings _ true _ [] rfl
  obtain ⟨-, -, hnothing⟩ := hlate rfl
  exact ⟨_, _, hrefused, htable, List.mem_append_right _ (List.mem_singleton_self _), hnothing⟩

/-- Two sinks that are opened before either writes both add rows to the table. -/
theorem not_excludes_early_openings :
    ∃ calls s, Interleaving (twoRivals, .empty) calls s ∧
      HasAdded (fun _ => .all) calls false ∧ HasAdded (fun _ => .all) calls true ∧
      s.2.get? "t" = some ((rivalBatch false).toRecords ++ (rivalBatch true).toRecords) := by
  have hstart : Interleaving (twoRivals, .empty) [] (twoRivals, .empty) := .refl
  have hopened := (hstart.concat (i := false)
    (.opened rfl) (by simp [TableCall.isOpening])).concat (i := true) (.opened rfl)
    (by simp [TableCall.isOpening])
  have hwritten := (hopened.concat (i := false) (.written (rivalBatch false) rfl)
    (by simp [TableCall.isOpening])).concat (i := true) (.written (rivalBatch true) rfl)
    (by simp [TableCall.isOpening])
  refine ⟨_, _, hwritten, ⟨_, List.mem_append_left _ (List.mem_append_right _
    (List.mem_singleton_self _)), ?_⟩, ⟨_, List.mem_append_right _ (List.mem_singleton_self _), ?_⟩,
    rfl⟩
  · exact List.cons_ne_nil _ _
  · exact List.cons_ne_nil _ _

end Interleaving

end MemorySink

end BatchTransfer
