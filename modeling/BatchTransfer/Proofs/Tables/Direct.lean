import BatchTransfer.Proofs.Tables.Targets

/-!
# Sinks that write to a table at once

A sink of a table in memory prepares the target when it is opened, adds every batch as it is
written, and creates the target when it commits. `MemorySink.Filled` is what is known of it between
two writes, and `MemorySink.reaches` takes a whole job to a loaded target. Such a sink fails for no
other reason than a target that must not be there, or a batch without a wanted column.
-/

namespace BatchTransfer

namespace MemorySink

/-- Whether the sink leaves all batches out, because its target is there. -/
def leavesOut (sink : MemorySink) (t : Tables) : Bool :=
  decide (sink.saveMode = .ignore) && t.contains sink.target

/-- The target of a job into a table. -/
def aim (start : MemorySink) (before : Tables) : Target where
  name := start.target
  mode := start.saveMode
  projection := start.projection
  leavesOut := start.leavesOut before
  before := before

/-- What is known of a sink that has been opened and has acknowledged some batches. -/
structure Filled (start : MemorySink) (before : Tables) (batches : List Batch) (sink : MemorySink)
    (tables : Tables) : Prop where
  settings : { sink with discards := start.discards, rows := start.rows } = start
  discards : sink.discards = start.leavesOut before
  discarded : sink.discards = true → tables = before ∧ sink.rows = 0
  filled : sink.discards = false → ∃ projected : List Batch,
    batches.map (·.project start.projection) = projected.map .ok ∧
      sink.rows = Batch.totalSize projected ∧
      tables.ensure start.target =
        before.load start.target start.saveMode (projected.flatMap Batch.toRecords)

namespace Filled

variable {start sink sink' : MemorySink} {before tables tables' : Tables} {batches : List Batch}
  {batch : Batch} {answer : ConnectorResult Acknowledgement}

theorem target_eq (h : Filled start before batches sink tables) : sink.target = start.target :=
  (congrArg MemorySink.target h.settings :)

theorem projection_eq (h : Filled start before batches sink tables) :
    sink.projection = start.projection :=
  (congrArg MemorySink.projection h.settings :)

/-- A sink that has just been opened. -/
theorem opened (hfresh : start.discards = false) (hrows : start.rows = 0)
    (h : start.openTarget before = ((sink, tables), .ok ())) :
    Filled start before [] sink tables := by
  have hsame (hsink : sink = start) (hmode : start.saveMode ≠ .ignore)
      (htables : tables.ensure start.target = before.load start.target start.saveMode []) :
      Filled start before [] sink tables := by
    subst hsink
    refine ⟨rfl, ?_, fun hdiscards => ?_, fun _ => ⟨[], rfl, hrows, htables⟩⟩
    · simp [leavesOut, hmode, hfresh]
    · rw [hfresh] at hdiscards
      cases hdiscards
  unfold openTarget at h
  split at h
  · rename_i hmode
    cases h
    exact hsame rfl (by simp [hmode]) (Tables.ensure_eq_load _ _ _ (by simp [hmode]))
  · rename_i hmode
    cases h
    refine hsame rfl (by simp [hmode]) ?_
    simp [Tables.ensure, Tables.append, Tables.replace, Tables.load, SaveMode.keptRows, hmode]
  · rename_i hmode
    split at h <;> cases h
    exact hsame rfl (by simp [hmode]) (Tables.ensure_eq_load _ _ _ (by simp [hmode]))
  · rename_i hmode
    cases h
    refine ⟨rfl, ?_, fun _ => ⟨rfl, hrows⟩, fun _ => ⟨[], rfl, hrows, ?_⟩⟩
    · simp [leavesOut, hmode, hfresh]
    · exact Tables.ensure_eq_load _ _ _ (by simp [hmode])

/-- A write adds the records of the batch it acknowledges, and counts its rows. -/
theorem write (h : Filled start before batches sink tables)
    (hwrite : sink.write tables batch = ((sink', tables'), answer)) :
    (∃ e, answer = .error e ∧ sink' = sink ∧ tables' = tables ∧ start.leavesOut before = false ∧
        batch.project start.projection = .error e) ∨
      ∃ ack, answer = .ok ack ∧ sink'.rows = sink.rows + ack.rows ∧
        Filled start before (batches ++ [batch]) sink' tables' := by
  unfold MemorySink.write at hwrite
  split at hwrite
  · rename_i hdiscards
    cases hwrite
    refine .inr ⟨_, rfl, rfl, h.settings, h.discards, h.discarded, fun hkeeps => ?_⟩
    rw [hdiscards] at hkeeps
    cases hkeeps
  · rename_i hkeeps
    have hkeeps : sink.discards = false := eq_false_of_ne_true hkeeps
    split at hwrite
    · rename_i e hproject
      rw [h.projection_eq] at hproject
      cases hwrite
      exact .inl ⟨e, rfl, rfl, rfl, h.discards ▸ hkeeps, hproject⟩
    · rename_i b hproject
      rw [h.projection_eq] at hproject
      cases hwrite
      obtain ⟨projected, hprojected, hrows, htables⟩ := h.filled hkeeps
      refine .inr ⟨_, rfl, rfl, h.settings, h.discards, fun hdiscards => ?_, fun _ =>
        ⟨projected ++ [b], ?_, ?_, ?_⟩⟩
      · change sink.discards = true at hdiscards
        rw [hkeeps] at hdiscards
        cases hdiscards
      · simp [hprojected, hproject]
      · simp [hrows]
      · rw [h.target_eq, Tables.ensure_append, htables, Tables.append_load, List.flatMap_append,
          List.flatMap_singleton]

/-- A commit leaves the target loaded. -/
theorem commit (h : Filled start before batches sink tables) {receipt : CommitReceipt}
    (hcommit : sink.commit tables = ((sink', tables'), .ok receipt)) :
    ∃ written, (start.aim before).Loaded batches written sink.rows receipt tables' := by
  rw [MemorySink.commit, h.target_eq] at hcommit
  cases hcommit
  cases hdiscards : sink.discards with
  | true =>
      obtain ⟨htables, hrows⟩ := h.discarded hdiscards
      have hleaves : start.leavesOut before = true := h.discards.symm.trans hdiscards
      have hcause := hleaves
      simp only [leavesOut, Bool.and_eq_true, decide_eq_true_eq] at hcause
      obtain ⟨hmode, hthere⟩ := hcause
      obtain ⟨rows, hfound⟩ := Option.isSome_iff_exists.mp hthere
      refine ⟨[], fun hkeeps => ?_, fun _ => rfl, ?_, hrows, by rw [hrows]; rfl⟩
      · cases hleaves.symm.trans hkeeps
      · -- The target is there, so the rows that it keeps are all that it holds.
        rw [if_pos rfl, htables, Tables.load, SaveMode.keptRows]
        change before = before.insert start.target
          ((if start.saveMode = .overwrite then [] else (before.get? start.target).getD []) ++ [])
        rw [hmode, if_neg (by decide), hfound, Option.getD_some, List.append_nil,
          KeyMap.insert_of_get? hfound]
  | false =>
      obtain ⟨projected, hprojected, hrows, htables⟩ := h.filled hdiscards
      have hleaves : start.leavesOut before = false := h.discards.symm.trans hdiscards
      rw [Batch.totalSize_eq_length] at hrows
      refine ⟨projected.flatMap Batch.toRecords, fun _ => ⟨projected, hprojected, rfl⟩,
        fun hall => ?_, ?_, hrows, by rw [hrows]; rfl⟩
      · cases hleaves.symm.trans hall
      · rw [if_neg Bool.false_ne_true, htables]
        rfl

end Filled

/-! ### Jobs into a table -/

/-- The milestones of a job into a table. -/
def milestones (start : MemorySink) (before : Tables) : Milestones JobSite where
  unopened site := site.sink = .memory start ∧ site.host.tables = before
  taking batches rows site := ∃ sink, site.sink = .memory sink ∧
    Filled start before batches sink site.host.tables ∧ sink.rows = rows
  committed batches rows receipt site := ∃ sink written, site.sink = .memory sink ∧
    (start.aim before).Loaded batches written rows receipt site.host.tables
  refusal _ := start.saveMode = .errorIfExists ∧ before.contains start.target = true
  rejection batch e :=
    start.leavesOut before = false ∧ batch.project start.projection = .error e
  failure _ _ := False

section Jobs

variable {α : Type} {site t : JobSite} {sink start : MemorySink} {before tables : Tables}

/-- A call of a sink of a table takes effect at once, on the sink and the tables. -/
theorem ends_onSink (call : Sink → Host → Call (Sink × Host) α)
    (effect : MemorySink → Tables → (MemorySink × Tables) × ConnectorResult α)
    (hcall : ∀ m host, call (.memory m) host =
      .now (.memory (effect m host.tables).1.1, { host with tables := (effect m host.tables).1.2 })
        (effect m host.tables).2)
    (hsink : site.sink = .memory sink) {answer : ConnectorResult α}
    (hends : (site.onSink (call site.sink site.host)).Ends t answer) :
    ∃ sink', t.sink = .memory sink' ∧
      effect sink site.host.tables = ((sink', t.host.tables), answer) :=
  JobSite.ends_now_onSink .memory (·.tables) (fun host tables => { host with tables })
    (fun _ _ => rfl) call effect hcall hsink hends

/-- Only a target that must not be there keeps the sink from being opened. -/
theorem openTarget_error {e : ConnectorError}
    (h : start.openTarget before = ((sink, tables), .error e)) :
    sink = start ∧ tables = before ∧
      start.saveMode = .errorIfExists ∧ before.contains start.target = true := by
  unfold openTarget at h
  split at h
  · cases h
  · cases h
  · split at h <;> cases h
    exact ⟨rfl, rfl, ‹_›, ‹_›⟩
  · cases h

/-- An opening counts no rows. -/
theorem rows_openTarget {answer : ConnectorResult Unit}
    (h : start.openTarget before = ((sink, tables), answer)) : sink.rows = start.rows := by
  unfold openTarget at h
  split at h
  · cases h
    rfl
  · cases h
    rfl
  · split at h <;> cases h <;> rfl
  · cases h
    rfl

/-- A change of neither the sink nor the tables. -/
theorem milestones_kept {s t : JobSite}
    (h : t.sink = s.sink ∧ t.host.tables = s.host.tables) : (start.milestones before).Kept s t := by
  obtain ⟨hsink, htables⟩ := h
  refine ⟨?_, fun _ _ => ?_, fun _ _ _ => ?_⟩
  · rintro ⟨hs, hbefore⟩
    exact ⟨hsink.trans hs, htables.trans hbefore⟩
  · rintro ⟨sink, hs, hfilled, hrows⟩
    exact ⟨sink, hsink.trans hs, htables ▸ hfilled, hrows⟩
  · rintro ⟨sink, written, hs, hloaded⟩
    exact ⟨sink, written, hsink.trans hs, htables ▸ hloaded⟩

/-- A job into a table passes its milestones. -/
theorem reaches (kind : Role → String) (before : Tables) (hfresh : start.discards = false)
    (hrows : start.rows = 0) : (JobSite.wiring kind).Reaches (start.milestones before) where
  opens_source hcall :=
    milestones_kept (JobSite.tables_eq_of_onSource (Source.openCall_leaves ..) hcall)
  reads hcall := milestones_kept (JobSite.tables_eq_of_onSource (Source.readCall_leaves ..) hcall)
  closes_source hcall :=
    milestones_kept (JobSite.tables_eq_of_onSource (Source.closeCall_leaves ..) hcall)
  refuses := by
    rintro time s t e ⟨hsink, rfl⟩ hcall
    obtain ⟨sink, hsink', heffect⟩ := ends_onSink (fun x host => x.openCall time host)
      openTarget (fun _ _ => rfl) hsink hcall
    obtain ⟨rfl, htables, hmode⟩ := openTarget_error heffect
    exact ⟨⟨hsink', htables⟩, hmode⟩
  opens := by
    rintro time s t ⟨hsink, rfl⟩ hcall
    obtain ⟨sink, hsink', heffect⟩ := ends_onSink (fun x host => x.openCall time host)
      openTarget (fun _ _ => rfl) hsink hcall
    exact ⟨sink, hsink', .opened hfresh hrows heffect, (rows_openTarget heffect).trans hrows⟩
  rejects := by
    rintro time batch batches rows s t e ⟨sink, hsink, hfilled, hrows⟩ hcall
    obtain ⟨sink', hsink', heffect⟩ := ends_onSink
      (fun x host => x.writeCall time batch host)
      (fun m tables => m.write tables batch) (fun _ _ => rfl) hsink hcall
    obtain ⟨_, ⟨⟩, rfl, htables, hfailed⟩ | ⟨_, ⟨⟩, -⟩ := hfilled.write heffect
    exact ⟨⟨sink', hsink', htables ▸ hfilled, hrows⟩, hfailed⟩
  writes := by
    rintro time batch batches rows s t ack ⟨sink, hsink, hfilled, hrows⟩ - hcall
    obtain ⟨sink', hsink', heffect⟩ := ends_onSink
      (fun x host => x.writeCall time batch host)
      (fun m tables => m.write tables batch) (fun _ _ => rfl) hsink hcall
    obtain ⟨_, ⟨⟩, -⟩ | ⟨_, ⟨⟩, hcounted, hfilled'⟩ := hfilled.write heffect
    exact ⟨sink', hsink', hfilled', by rw [hcounted, hrows]⟩
  fails := by
    rintro time batches rows s t e ⟨sink, hsink, -, -⟩ hcall
    obtain ⟨sink', -, heffect⟩ := ends_onSink (fun x host => x.commitCall time host)
      commit (fun _ _ => rfl) hsink hcall
    exact absurd (congrArg Prod.snd heffect) nofun
  commits := by
    rintro time batches rows s t receipt ⟨sink, hsink, hfilled, hrows⟩ hcall
    obtain ⟨sink', hsink', heffect⟩ := ends_onSink (fun x host => x.commitCall time host)
      commit (fun _ _ => rfl) hsink hcall
    obtain ⟨written, hloaded⟩ := hfilled.commit heffect
    exact ⟨sink', written, hsink', hrows ▸ hloaded⟩
  closes := by
    rintro time batches rows receipt s t answer ⟨sink, written, hsink, hloaded⟩ hcall
    obtain ⟨sink', hsink', heffect⟩ := ends_onSink (fun x host => x.closeCall time host)
      (fun m tables => ((m, tables), .ok ())) (fun _ _ => rfl) hsink hcall
    simp only [Prod.mk.injEq] at heffect
    obtain ⟨⟨rfl, htables⟩, -⟩ := heffect
    exact ⟨sink, written, hsink', htables ▸ hloaded⟩

end Jobs

end MemorySink

end BatchTransfer
