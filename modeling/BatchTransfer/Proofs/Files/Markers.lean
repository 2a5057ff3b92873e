import BatchTransfer.Proofs.Files.Overwriting

/-!
# What the marker of a directory says

When a file sink has been opened on a directory without a marker, or has overwritten it, a marker is
in the directory after the job if and only if the job is completed, and every file that the job has
written holds a batch of the source, whole and projected (`Host.PlanRun.marks_success`). A sink that
finds data of an earlier run and ignores it leaves nothing at all.
-/

namespace BatchTransfer

open FileTree (IsName IsPath)
open FileSink (isEarlier marker)
open JobEvent (allAcknowledged streamRead?)

namespace FileSink

variable {start : FileSink} {before t : FileTree} {batches written : List Batch} {marked : Bool}
  {path : FilePath} {content : Content}

/-- Whether a file is the part of one of the batches, which it holds whole after the projection. -/
def IsPart (s : FileSink) (before : FileTree) (batches : List Batch) (path : FilePath)
    (content : Content) : Prop :=
  ∃ i batch projected, batches[i]? = some batch ∧ batch.project s.projection = .ok projected ∧
    path = s.target before ++ [s.partNameAt (s.parts + i)] ∧
    content = .text (s.format.encode projected)

namespace Deposit

/-- The batch in each part is one of those that have been acknowledged. -/
theorem getElem?_project (h : start.Deposit before batches written marked t)
    (hkeeps : start.leavesOut before = false) (i : Nat) :
    batches[i]?.map (·.project start.projection) = written[i]?.map .ok := by
  rw [← List.getElem?_map, ← List.getElem?_map, h.projected hkeeps]

/-- Every file that is left has been there before, or is the marker or a part. -/
theorem isPart_of_content? (h : start.Deposit before batches written marked t) (hpath : IsPath path)
    (hcontent : t.content? path = some content) :
    before.content? path = some content ∨
      (marked = true ∧ path = start.target before ++ [marker]) ∨
      start.leavesOut before = false ∧ start.IsPart before batches path content := by
  by_cases hadded : ∃ file ∈ start.filesWith written marked, path = start.target before ++ [file.1]
  · obtain ⟨file, hfile, rfl⟩ := hadded
    rw [h.files.holds file hfile, Option.some.injEq] at hcontent
    rcases List.mem_append.mp hfile with hfile | hfile
    · obtain ⟨part, hpart, rfl⟩ := List.mem_map.mp hfile
      obtain ⟨i, hwritten, hname⟩ := mem_partsOf.mp hpart
      cases hleaves : start.leavesOut before with
      | true =>
          rw [h.leftOut hleaves] at hwritten
          cases hwritten
      | false =>
          have hproject := h.getElem?_project hleaves i
          rw [hwritten, Option.map_some, Option.map_eq_some_iff] at hproject
          obtain ⟨batch, hbatch, hproject⟩ := hproject
          refine .inr (.inr ⟨rfl, i, batch, part.2, hbatch, hproject, ?_, hcontent.symm⟩)
          exact congrArg (fun name => start.target before ++ [name]) hname
    · split at hfile
      · rename_i hmarked
        rw [List.mem_singleton.mp hfile]
        exact .inr (.inl ⟨hmarked, rfl⟩)
      · cases hfile
  · have hother := h.files.others path hpath fun file hfile hsame => hadded ⟨file, hfile, hsame⟩
    rw [hother, kept] at hcontent
    split at hcontent
    · cases hcontent
    · exact .inl hcontent

/-- Each batch that has been acknowledged stands in its part. -/
theorem content?_part (h : start.Deposit before batches written marked t)
    (hkeeps : start.leavesOut before = false) {i : Nat} {batch : Batch}
    (hbatch : batches[i]? = some batch) : ∃ projected,
      batch.project start.projection = .ok projected ∧
      t.content? (start.target before ++ [start.partNameAt (start.parts + i)]) =
        some (.text (start.format.encode projected)) := by
  have hproject := h.getElem?_project hkeeps i
  rw [hbatch, Option.map_some, eq_comm, Option.map_eq_some_iff] at hproject
  obtain ⟨projected, hwritten, hproject⟩ := hproject
  refine ⟨projected, hproject.symm, h.files.holds (start.partNameAt (start.parts + i), _) ?_⟩
  refine List.mem_append_left _ (List.mem_map.mpr ⟨(_, projected), ?_, rfl⟩)
  exact mem_partsOf.mpr ⟨i, hwritten, rfl⟩

/-- The marker is there that has been left, and otherwise the one that was kept. -/
theorem content?_marker (h : start.Deposit before batches written marked t)
    (hpath : IsPath (start.target before)) :
    t.content? (start.target before ++ [marker]) =
      if marked then some (.text "") else start.kept before (start.target before ++ [marker]) := by
  cases marked with
  | true =>
      exact h.files.holds (marker, .text "")
        (List.mem_append_right _ (List.mem_singleton_self _))
  | false =>
      have hfiles := h.files
      rw [filesWith_false] at hfiles
      refine hfiles.others _ (FileTree.isPath_concat hpath (by decide)) fun file hfile hsame => ?_
      have hname : marker = file.1 := by simpa using hsame
      exact start.marker_not_mem written (hname ▸ List.mem_map_of_mem hfile)

end Deposit

end FileSink

namespace Host

variable {h : Host} {registry : ConnectorRegistry} {settings : JobSettings} {plan : Plan}
  {cancellation : Cancellation} {events : List JobEvent} {outcome : JobOutcome} {start : FileSink}

/-- After a job whose sink of files has been opened, on a directory without a marker or one that it
overwrites, the directory holds a marker if and only if the job is completed, unless the sink
ignores a directory that holds data, at any depth. The files that the job has written are the marker
and the parts: each holds a batch of the source, whole and projected, and every batch that has been
acknowledged has its part. A sink that ignores what it finds changes nothing. -/
theorem PlanRun.marks_success (hrun : h.PlanRun registry settings plan cancellation events outcome)
    (hkind : registry.sinks.get? plan.sink.kind = some ConnectorRegistry.fileSink)
    (hworking : IsPath h.files.workingDirectory)
    (hsink : registry.makeSink h.nextRun plan.sink.kind plan.sink.options = .ok (.file start))
    (hopened : .opened .sink (.ok ()) ∈ events) :
    allAcknowledged events <+: (streamRead? events).elim [] Stream.nonEmptyBatches ∧
    (∀ path, IsPath path → ∀ content, outcome.host.files.content? path = some content →
      h.files.content? path = some content ∨
      path = start.target h.files ++ [marker] ∧ (∃ report, outcome.result = .ok report) ∨
      start.IsPart h.files (allAcknowledged events) path content) ∧
    (start.leavesOut h.files = false →
      (∀ i batch, (allAcknowledged events)[i]? = some batch → ∃ projected,
        batch.project start.projection = .ok projected ∧
        outcome.host.files.content? (start.target h.files ++ [start.partNameAt i]) =
          some (.text (start.format.encode projected))) ∧
      (start.saveMode = .overwrite ∨ h.files.content? (start.target h.files ++ [marker]) = none →
        ((∃ content, outcome.host.files.content? (start.target h.files ++ [marker]) = some content) ↔
          ∃ report, outcome.result = .ok report))) ∧
    (start.leavesOut h.files = true →
      ∀ path, IsPath path → outcome.host.files.content? path = h.files.content? path) := by
  have hleaves := hrun.leaves_files hkind hworking hsink
  rw [JobEvent.batchesTaken?_eq_some_iff.mpr ⟨hopened, rfl⟩] at hleaves
  obtain ⟨written, hdeposit⟩ := hleaves
  obtain ⟨_, ⟨⟩, -, hparts, -⟩ := exists_fileSink hkind hsink
  refine ⟨hrun.acknowledged_prefix, fun path hpath content hcontent => ?_, fun hkeeps => ⟨?_, ?_⟩,
    fun hout path hpath => ?_⟩
  · rcases hdeposit.isPart_of_content? hpath hcontent with hbefore | ⟨hmarked, hmarker⟩ | ⟨-, hpart⟩
    · exact .inl hbefore
    · rw [Bool.and_eq_true] at hmarked
      exact .inr (.inl ⟨hmarker, isOk_eq_true_iff.mp hmarked.1⟩)
    · exact .inr (.inr hpart)
  · intro i batch hbatch
    have hpart := hdeposit.content?_part hkeeps hbatch
    rwa [hparts, Nat.zero_add] at hpart
  · intro hclear
    have hnone : start.kept h.files (start.target h.files ++ [marker]) = none := by
      rcases hclear with hmode | hnone
      · rw [FileSink.kept, hmode, FileSink.isEarlierBelow_append, FileSink.isEarlier_marker]
        rfl
      · rw [FileSink.kept, hnone, ite_self]
    rw [hdeposit.content?_marker (start.isPath_target hworking), hnone, hkeeps, Bool.not_false,
      Bool.and_true, ← isOk_eq_true_iff]
    cases outcome.result.isOk <;> simp
  · have hnothing :
        start.filesWith written (outcome.result.isOk && !start.leavesOut h.files) = [] := by
      rw [hdeposit.leftOut hout, hout, Bool.not_true, Bool.and_false]
      rfl
    have hignores : start.saveMode = .ignore := by
      have hcause := hout
      simp only [FileSink.leavesOut, Bool.and_eq_true, decide_eq_true_eq] at hcause
      exact hcause.1
    have hfiles := hdeposit.files
    rw [hnothing] at hfiles
    rw [hfiles.others path hpath (fun _ hfile => absurd hfile List.not_mem_nil), FileSink.kept,
      hignores]
    rfl

/-- A job that overwrites the directory leaves the marker, and the scripted batch in its part. -/
theorem marks_success_nestedTree : ∃ events,
    nestedHost.PlanRun fileRegistry JobRun.oneBatchSettings (filePlan .overwrite) {} events
        (fileOutcome .overwrite) ∧
      ∃ content, (fileOutcome .overwrite).host.files.content? ["o", marker] = some content := by
  have hcompleted : (fileOutcome .overwrite).result.isOk = true := by decide +kernel
  obtain ⟨events, hrun, hopened⟩ := exists_fileRun hcompleted
  obtain ⟨-, -, hkept, -⟩ :=
    hrun.marks_success rfl isPath_nestedHost (makeSink_filePlan .overwrite) hopened
  exact ⟨events, hrun, ((hkept rfl).2 (.inl rfl)).mpr (isOk_eq_true_iff.mp hcompleted)⟩

/-- A completed job may leave a directory without a marker that holds neither a part nor a marker:
it ignores what lies further down. -/
theorem not_marks_success_in_place :
    ¬ ∀ (h : Host) (registry : ConnectorRegistry) (settings : JobSettings) (plan : Plan)
        (cancellation : Cancellation) (events : List JobEvent) (outcome : JobOutcome)
        (start : FileSink),
      h.PlanRun registry settings plan cancellation events outcome →
      registry.sinks.get? plan.sink.kind = some ConnectorRegistry.fileSink →
      IsPath h.files.workingDirectory →
      registry.makeSink h.nextRun plan.sink.kind plan.sink.options = .ok (.file start) →
      .opened .sink (.ok ()) ∈ events →
      (∀ name, IsName name → isEarlier [name] = true →
        h.files.content? (start.target h.files ++ [name]) = none) →
      ((∃ content, outcome.host.files.content? (start.target h.files ++ [marker]) = some content) ↔
        ∃ report, outcome.result = .ok report) := by
  intro hclaim
  have hcompleted : (fileOutcome .ignore).result.isOk = true := by decide +kernel
  obtain ⟨events, hrun, hopened⟩ := exists_fileRun hcompleted
  have hclear : ∀ name, IsName name → isEarlier [name] = true →
      nestedHost.files.content? ["o", name] = none := by
    intro name hname hearlier
    by_contra hsome
    obtain ⟨content, hcontent⟩ := Option.ne_none_iff_exists'.mp hsome
    have hall : nestedHost.files.filesBelow [] =
        [(["o", "notes"], .text "2"), (["o", "sub", "part-old"], .text "3")] := by decide +kernel
    have hpath : IsPath ["o", name] := FileTree.isPath_concat (show IsPath ["o"] by decide) hname
    have hfile : (["o", name], content) ∈ nestedHost.files.filesBelow [] :=
      FileTree.mem_filesBelow.mpr ⟨_, FileTree.content?_eq_some_iff.mp hcontent,
        (FileTree.pathOfKey_key hpath).symm⟩
    -- The only file that lies in the directory itself is neither a part nor a marker.
    obtain rfl : name = "notes" := by
      rw [hall] at hfile
      simp at hfile
      exact hfile.1
    revert hearlier
    decide
  have hmarked := hclaim _ _ _ _ _ _ _ _ hrun rfl isPath_nestedHost (makeSink_filePlan .ignore)
    hopened hclear
  obtain ⟨content, hmarker⟩ := hmarked.mpr (isOk_eq_true_iff.mp hcompleted)
  have hnone : (fileOutcome .ignore).host.files.content? ["o", marker] = none := by decide +kernel
  cases hmarker.symm.trans hnone

end Host

end BatchTransfer
