import BatchTransfer.Proofs.Files.Deposits
import BatchTransfer.Proofs.Staging.Jobs

/-!
# What overwriting a directory takes away

A sink that overwrites a directory takes away the parts and markers of earlier runs when it is
opened, in the directory itself and in all directories below it. No other file is changed by its
job, whatever comes of it (`Host.PlanRun.overwrites`).
-/

namespace BatchTransfer

open FileTree (IsPath)
open FileSink (isEarlier)

namespace Host

variable {h : Host} {registry : ConnectorRegistry} {settings : JobSettings} {plan : Plan}
  {cancellation : Cancellation} {events : List JobEvent} {outcome : JobOutcome} {start : FileSink}

/-- A job that overwrites a directory leaves all files as they were, whatever comes of it, that are
no parts or markers below the directory. Of these it takes away those that lie in a directory
further down, but only if its sink has been opened. -/
theorem PlanRun.overwrites (hrun : h.PlanRun registry settings plan cancellation events outcome)
    (hkind : registry.sinks.get? plan.sink.kind = some ConnectorRegistry.fileSink)
    (hworking : IsPath h.files.workingDirectory)
    (hsink : registry.makeSink h.nextRun plan.sink.kind plan.sink.options = .ok (.file start))
    (hmode : start.saveMode = .overwrite) :
    (∀ path, IsPath path →
      (∀ rest, path = start.target h.files ++ rest → isEarlier rest = false) →
      outcome.host.files.content? path = h.files.content? path) ∧
    ∀ rest, IsPath rest → isEarlier rest = true → 1 < rest.length →
      (.opened .sink (.ok ()) ∈ events →
        outcome.host.files.content? (start.target h.files ++ rest) = none) ∧
      (.opened .sink (.ok ()) ∉ events →
        outcome.host.files.content? (start.target h.files ++ rest) =
          h.files.content? (start.target h.files ++ rest)) := by
  have hleaves := hrun.leaves_files hkind hworking hsink
  refine ⟨fun path hpath houtside => ?_, fun rest hrest hearlier hdeep => ⟨fun hopened => ?_,
    fun hunopened => ?_⟩⟩
  · -- A path that does not lead to earlier data is the same before and after, opened or not.
    have hother : FileSink.isEarlierBelow (start.target h.files) path = false := by
      refine eq_false_of_ne_true fun hbelow => ?_
      obtain ⟨rest, hsplit, hearlier⟩ := FileSink.isEarlierBelow_eq_true_iff.mp hbelow
      rw [houtside rest hsplit] at hearlier
      cases hearlier
    cases htaken : JobEvent.batchesTaken? events with
    | none =>
        rw [htaken] at hleaves
        exact hleaves.content?_eq path
    | some batches =>
        rw [htaken] at hleaves
        obtain ⟨written, hdeposit⟩ := hleaves
        exact hdeposit.content?_eq hpath hother
  · rw [JobEvent.batchesTaken?_eq_some_iff.mpr ⟨hopened, rfl⟩] at hleaves
    obtain ⟨written, hdeposit⟩ := hleaves
    have hpath : IsPath (start.target h.files ++ rest) := fun name hname =>
      (List.mem_append.mp hname).elim (start.isPath_target hworking name) (hrest name)
    rw [hdeposit.content?_of_deep hpath (by omega), FileSink.kept, hmode,
      FileSink.isEarlierBelow_append, hearlier]
    rfl
  · have hnever : JobEvent.sinkOpened events = false :=
      eq_false_of_ne_true (mt JobEvent.sinkOpened_eq_true_iff.mp hunopened)
    rw [JobEvent.batchesTaken?, hnever, if_neg Bool.false_ne_true] at hleaves
    exact hleaves.content?_eq _

/-- A tree with a directory that holds notes and, in a directory of its own, a part. -/
def nestedTree : FileTree :=
  ((((FileTree.empty []).put ["o"] .directory).put ["o", "sub"] .directory).put ["o", "notes"]
    (.file (.text "2"))).put ["o", "sub", "part-old"] (.file (.text "3"))

/-- A host with these files and a script of one batch. -/
def nestedHost : Host := oneFieldHost.setFiles nestedTree

/-- The registry of the scripted source and the sink of files. -/
def fileRegistry : ConnectorRegistry := oneFieldRegistry.addSink "file" ConnectorRegistry.fileSink

/-- A plan of these, into the directory `/o`. -/
def filePlan (mode : SaveMode) : Plan :=
  ⟨⟨"script", .empty⟩, ⟨"file", (KeyMap.empty.insert "path" (.string "/o")).insert "saveMode"
    (.string mode.name)⟩, none⟩

/-- The sink of that plan. -/
def plainFileSink (mode : SaveMode) : FileSink := ⟨"/o", .json, mode, .all, ⟨0⟩, none, 0, 0, false⟩

theorem makeSink_filePlan (mode : SaveMode) :
    fileRegistry.makeSink nestedHost.nextRun (filePlan mode).sink.kind
      (filePlan mode).sink.options = .ok (.file (plainFileSink mode)) := by
  cases mode <;> rfl

theorem isPath_nestedHost : IsPath nestedHost.files.workingDirectory := show IsPath [] by decide

/-- What comes of that plan. -/
def fileOutcome (mode : SaveMode) : JobOutcome :=
  nestedHost.runPlan fileRegistry JobRun.oneBatchSettings (filePlan mode) {}

theorem exists_fileRun {mode : SaveMode} (hcompleted : (fileOutcome mode).result.isOk = true) :
    ∃ events, nestedHost.PlanRun fileRegistry JobRun.oneBatchSettings (filePlan mode) {} events
        (fileOutcome mode) ∧ .opened .sink (.ok ()) ∈ events := by
  obtain ⟨events, hrun⟩ := nestedHost.planRun_runPlan fileRegistry JobRun.oneBatchSettings
    (filePlan mode) {}
  obtain ⟨report, hreport⟩ := isOk_eq_true_iff.mp hcompleted
  obtain ⟨stream, -, -, htaken⟩ := hrun.batchesTaken?_of_ok hreport
  exact ⟨events, hrun, (JobEvent.batchesTaken?_eq_some_iff.mp htaken).1⟩

/-- A job that overwrites the directory keeps the notes and takes the part further down away. -/
theorem overwrites_nestedTree : ∃ events,
    nestedHost.PlanRun fileRegistry JobRun.oneBatchSettings (filePlan .overwrite) {} events
        (fileOutcome .overwrite) ∧
      (fileOutcome .overwrite).host.files.content? ["o", "notes"] = some (.text "2") ∧
      nestedHost.files.content? ["o", "sub", "part-old"] = some (.text "3") ∧
      (fileOutcome .overwrite).host.files.content? ["o", "sub", "part-old"] = none := by
  have hcompleted : (fileOutcome .overwrite).result.isOk = true := by decide +kernel
  obtain ⟨events, hrun, hopened⟩ := exists_fileRun hcompleted
  obtain ⟨hkept, hgone⟩ := hrun.overwrites rfl isPath_nestedHost (makeSink_filePlan .overwrite) rfl
  refine ⟨events, hrun, ?_, rfl, ?_⟩
  · rw [hkept ["o", "notes"] (by decide) fun rest hrest => ?_]
    · rfl
    · obtain rfl : rest = ["notes"] := (List.cons.inj hrest).2.symm
      decide
  · exact (hgone ["sub", "part-old"] (by decide) (by decide) (by decide)).1 hopened

/-- A job that overwrites a directory may change files that do not lie in the directory itself. -/
theorem not_overwrites_in_place :
    ¬ ∀ (h : Host) (registry : ConnectorRegistry) (settings : JobSettings) (plan : Plan)
        (cancellation : Cancellation) (events : List JobEvent) (outcome : JobOutcome)
        (start : FileSink),
      h.PlanRun registry settings plan cancellation events outcome →
      registry.sinks.get? plan.sink.kind = some ConnectorRegistry.fileSink →
      IsPath h.files.workingDirectory →
      registry.makeSink h.nextRun plan.sink.kind plan.sink.options = .ok (.file start) →
      start.saveMode = .overwrite →
      ∀ rest, IsPath rest → (1 < rest.length ∨ isEarlier rest = false) →
        outcome.host.files.content? (start.target h.files ++ rest) =
          h.files.content? (start.target h.files ++ rest) := by
  intro hclaim
  obtain ⟨events, hrun⟩ := nestedHost.planRun_runPlan fileRegistry JobRun.oneBatchSettings
    (filePlan .overwrite) {}
  have hsame : (fileOutcome .overwrite).host.files.content? ["o", "sub", "part-old"] =
      nestedHost.files.content? ["o", "sub", "part-old"] :=
    hclaim _ _ _ _ _ _ _ _ hrun rfl isPath_nestedHost (makeSink_filePlan .overwrite) rfl
      ["sub", "part-old"] (by decide) (.inl (by decide))
  have hgone : (fileOutcome .overwrite).host.files.content? ["o", "sub", "part-old"] = none := by
    decide +kernel
  have hthere : nestedHost.files.content? ["o", "sub", "part-old"] = some (.text "3") := rfl
  rw [hgone, hthere] at hsame
  cases hsame

end Host

end BatchTransfer
