import BatchTransfer.Proofs.Staging.Folders

/-!
# Staging jobs that share an area

Several sinks may stage in one directory and publish in one set of tables, their calls in any
order. `SharedTrace.do_not_disturb` says that none of them notices the others: a commit publishes
what its own sink has staged, and closing a sink removes the objects of its own job and none of
another. To one sink, the calls of the others are changes elsewhere (`Together.step`), because each
job stages in a folder of its own.
-/

namespace BatchTransfer.Staging.StagingSink

open StagingEvent (staged)

variable {ι : Type} [DecidableEq ι]

/-! ### Calls of several sinks -/

/-- A call of one of several sinks that share a host. -/
structure SharedStep (i : ι) (event : StagingEvent) (s s' : (ι → StagingSink) × Host) : Prop where
  isCall : event.isCall = true
  call : Step (s.1 i, s.2) event (s'.1 i, s'.2)
  others : ∀ j, j ≠ i → s'.1 j = s.1 j

/-- Calls of several sinks in any order. Each stands with the sink that has been called. -/
inductive SharedTrace (start : (ι → StagingSink) × Host) :
    List (ι × StagingEvent) → (ι → StagingSink) × Host → Prop where
  | refl : SharedTrace start [] start
  | step {events : List (ι × StagingEvent)} {i : ι} {event : StagingEvent}
      {s s' : (ι → StagingSink) × Host} (hrun : SharedTrace start events s)
      (hstep : SharedStep i event s s') : SharedTrace start (events ++ [(i, event)]) s'

/-- What the calls are to one of the sinks. -/
def seenBy (i : ι) (events : List (ι × StagingEvent)) : List StagingEvent :=
  events.map fun e => if e.1 = i then e.2 else .elsewhere

/-- The batches with rows that one of the sinks has acknowledged, in order. -/
def stagedBy (i : ι) (events : List (ι × StagingEvent)) : List Batch :=
  staged ((events.filter (·.1 = i)).map Prod.snd)

theorem staged_seenBy (i : ι) (events : List (ι × StagingEvent)) :
    staged (seenBy i events) = stagedBy i events := by
  induction events with
  | nil => rfl
  | cons e events ih =>
      simp only [seenBy, stagedBy, staged] at ih ⊢
      by_cases hi : e.1 = i
      · simp [hi, List.filterMap_cons, ih]
      · simp [hi, List.filterMap_cons, ih, StagingEvent.staged?]

/-- Sinks that stage in a directory and publish in tables, as they are before all calls. -/
def warehouseJobs (root : String) (target : ι → String) (mode : ι → SaveMode)
    (projection : ι → Projection) (keeps : ι → Bool) (run : ι → RunId) (i : ι) : StagingSink :=
  .new (.table (target i) (mode i)) (.directory root) (projection i) (keeps i) (run i)

/-- Where the directory of a root lies. -/
def areaPath (root : String) (host : Host) : FilePath :=
  FileTree.walk (host.shelves.files.start root) (FileTree.names root)

theorem isPath_areaPath (root : String) {host : Host}
    (h : FileTree.IsPath host.shelves.files.workingDirectory) :
    FileTree.IsPath (areaPath root host) :=
  Location.isRooted_area (.directory root) h _ rfl

variable {root : String} {target : ι → String} {mode : ι → SaveMode} {projection : ι → Projection}
  {keeps : ι → Bool} {run : ι → RunId} {host : Host} {events : List (ι × StagingEvent)}
  {event : StagingEvent} {i : ι} {s s' : (ι → StagingSink) × Host}

/-! ### What each sink knows -/

/-- What is known of sinks that share a directory. Each has it as its store or has none, and to each
the calls of the others are changes that spare its parts. -/
structure Together (path : FilePath) (jobs : ι → StagingSink) (host : Host)
    (events : List (ι × StagingEvent)) (s : (ι → StagingSink) × Host) : Prop where
  uses : ∀ i, (s.1 i).UsesArea (.directory path)
  workingDirectory :
    s.2.shelves.files.workingDirectory = host.shelves.files.workingDirectory
  trace : ∀ i, Trace (jobs i, host) (seenBy i events) (s.1 i, s.2)
  untampered : ∀ i, .tampered ∉ seenBy i events

namespace Together

theorem start (path : FilePath) :
    Together path (warehouseJobs root target mode projection keeps run) host []
      (warehouseJobs root target mode projection keeps run, host) where
  uses := nofun
  workingDirectory := rfl
  trace := fun _ => .refl
  untampered := fun _ => List.not_mem_nil

/-- The parts of a sink are those of the batches that it has acknowledged. -/
theorem account {path : FilePath}
    (h : Together path (warehouseJobs root target mode projection keeps run) host events s)
    (i : ι) : ∃ projected, Account (warehouseJobs root target mode projection keeps run i) projected
      (seenBy i events) (s.1 i, s.2) :=
  Account.of_trace (.start (warehouseJobs root target mode projection keeps run i) none host rfl)
    (h.trace i)

theorem folder_eq {path : FilePath}
    (h : Together path (warehouseJobs root target mode projection keeps run) host events s)
    (i : ι) : (s.1 i).folder = jobFolder (.directory root) (run i) := by
  obtain ⟨projected, haccount⟩ := h.account i
  exact haccount.folder_eq

/-- The area of a sink is the directory, whether it has been opened or not. -/
theorem area_eq
    (h : Together (areaPath root host) (warehouseJobs root target mode projection keeps run) host
      events s) (i : ι) : (s.1 i).area s.2.shelves = .directory (areaPath root host) := by
  obtain ⟨projected, haccount⟩ := h.account i
  have hlocation : (s.1 i).location = .directory root :=
    (congrArg StagingSink.location haccount.fresh_eq :)
  cases hstore : (s.1 i).store with
  | some store => rw [area, hstore, store_eq_of_usesArea (h.uses i) hstore, Option.getD_some]
  | none =>
      rw [area, hstore, Option.getD_none, hlocation]
      exact Location.area_congr _ h.workingDirectory

/-- The parts of a sink lie in the folder of its job. -/
theorem part_isWithin {path : FilePath}
    (h : Together path (warehouseJobs root target mode projection keeps run) host events s)
    {part : Part} (hpart : part ∈ (s.1 i).parts) :
    part.path.IsProper ∧ part.path.IsWithin (.ofText (jobFolder (.directory root) (run i))) := by
  obtain ⟨projected, haccount⟩ := h.account i
  have hmem : part.path ∈ (s.1 i).parts.map Part.path := List.mem_map_of_mem hpart
  rw [haccount.parts] at hmem
  obtain ⟨k, -, hk⟩ := List.mem_map.mp hmem
  rw [← hk]
  exact ⟨isProper_partPath _ k, ObjectPath.isWithin_of_isBelow (isBelow_partPath _ k)⟩

/-- A call of one sink changes objects in the folder of its own job only. -/
theorem spared
    (h : Together (areaPath root host) (warehouseJobs root target mode projection keeps run) host
      events s) (hpath : FileTree.IsPath (areaPath root host)) (hstep : SharedStep i event s s') :
    Spared (areaPath root host) (jobFolder (.directory root) (run i)) (s'.1 i) s.2 s'.2 :=
  h.folder_eq i ▸ hstep.call.spared hstep.isCall hpath (h.uses i) (h.area_eq i)

/-- To a sink, a call of another is a change elsewhere. -/
theorem elsewhere
    (h : Together (areaPath root host) (warehouseJobs root target mode projection keeps run) host
      events s) (hpath : FileTree.IsPath (areaPath root host)) (hstep : SharedStep i event s s')
    {j : ι} (hj : j ≠ i) (hrun : (run j).full ≠ (run i).full) :
    Step (s.1 j, s.2) .elsewhere (s'.1 j, s'.2) := by
  have hspared := h.spared hpath hstep
  refine @Step.elsewhere _ _ _ _ .empty ?_ fun part hpart => ?_
  · rw [hstep.others j hj]
    cases hstore : (s.1 j).store with
    | none => rw [Option.map_none, ← hstore]
    | some store =>
        cases store_eq_of_usesArea (h.uses j) hstore
        exact congrArg (fun store => { s.1 j with store }) hstore
  · obtain ⟨hproper, hwithin⟩ := h.part_isWithin hpart
    rw [hstep.others j hj, content?, content?]
    cases hstore : (s.1 j).store with
    | none => rfl
    | some store =>
        cases store_eq_of_usesArea (h.uses j) hstore
        exact hspared.outside part.path hproper (not_isWithin_jobFolder hrun hwithin)

/-- A call of one sink keeps what is known of all. -/
theorem step
    (h : Together (areaPath root host) (warehouseJobs root target mode projection keeps run) host
      events s) (hpath : FileTree.IsPath (areaPath root host))
    (hruns : ∀ i j, i ≠ j → (run i).full ≠ (run j).full) (hstep : SharedStep i event s s') :
    Together (areaPath root host) (warehouseJobs root target mode projection keeps run) host
      (events ++ [(i, event)]) s' := by
  have hspared := h.spared hpath hstep
  have hseen (j : ι) : seenBy j (events ++ [(i, event)]) =
      seenBy j events ++ [if i = j then event else .elsewhere] := by
    simp [seenBy]
  refine ⟨fun j => ?_, hspared.workingDirectory.trans h.workingDirectory, fun j => ?_, fun j => ?_⟩
  · by_cases hj : j = i
    · exact hj ▸ hspared.uses
    · exact hstep.others j hj ▸ h.uses j
  · rw [hseen]
    by_cases hj : j = i
    · subst hj
      rw [if_pos rfl]
      exact (h.trace j).step hstep.call
    · rw [if_neg (Ne.symm hj)]
      exact (h.trace j).step (h.elsewhere hpath hstep hj (hruns j i hj))
  · rw [hseen, List.mem_append, List.mem_singleton, not_or]
    refine ⟨h.untampered j, fun htampered => ?_⟩
    split at htampered
    · have hcall := hstep.isCall
      rw [← htampered] at hcall
      cases hcall
    · cases htampered

/-- What is known of the sinks holds after any of their calls. -/
theorem of_trace (hpath : FileTree.IsPath (areaPath root host))
    (hruns : ∀ i j, i ≠ j → (run i).full ≠ (run j).full)
    (hrun : SharedTrace (warehouseJobs root target mode projection keeps run, host) events s) :
    Together (areaPath root host) (warehouseJobs root target mode projection keeps run) host
      events s := by
  induction hrun with
  | refl => exact .start _
  | step hrun hstep ih => exact ih.step hpath hruns hstep

end Together

/-! ### What a commit publishes and what closing removes -/

/-- The records of batches, projected, are read back from their texts, and are then added to the
rows of a target or take their place. Nothing else changes in the tables. -/
def Publishes (target : String) (mode : SaveMode) (projection : Projection) (batches : List Batch)
    (before after : Tables) : Prop :=
  ∃ (projected : List Batch) (records : List Record),
    batches.map (·.project projection) = projected.map .ok ∧
    (projected.flatMap Batch.toRecords).mapM Record.reread? = some records ∧
    after = before.insert target
      (if mode = .overwrite then records else (before.get? target).getD [] ++ records)

/-- Records that read back as themselves are published as they are. -/
theorem Publishes.loads {target : String} {mode : SaveMode} {projection : Projection}
    {batches : List Batch} {before after : Tables}
    (h : Publishes target mode projection batches before after) :
    Loads target mode projection batches before after := by
  obtain ⟨projected, records, hprojected, hread, hafter⟩ := h
  refine ⟨projected, hprojected, fun hback => ?_⟩
  have hsame : (projected.flatMap Batch.toRecords).mapM Record.reread? =
      some (projected.flatMap Batch.toRecords) := by
    refine mapM_reread?_eq_some fun r hr => ?_
    obtain ⟨batch, hbatch, hmem⟩ := List.mem_flatMap.mp hr
    exact hback batch hbatch r hmem
  cases hread.symm.trans hsame
  exact hafter

namespace Together

/-- A successful commit publishes what its own sink has staged. -/
theorem publishes {path : FilePath} {receipt : CommitReceipt}
    (h : Together path (warehouseJobs root target mode projection keeps run) host events s)
    (hstep : SharedStep i (.committed (.ok receipt)) s s') :
    Publishes (target i) (mode i) (projection i) (stagedBy i events) s.2.tables s'.2.tables := by
  obtain ⟨projected, haccount⟩ := h.account i
  have hloader : (s.1 i).loader = .table (target i) (mode i) := haccount.loader_eq
  obtain ⟨store, found, hstore, hfound, htables⟩ := hstep.call.committed_ok hloader
  rw [haccount.parts, List.map_map] at hfound
  refine ⟨projected, found.flatten, ?_, haccount.reread_eq hstore (h.untampered i) hfound, htables⟩
  rw [← staged_seenBy]
  exact haccount.projects

/-- A sink that is not open has acknowledged nothing. -/
theorem stagedBy_eq_nil {path : FilePath}
    (h : Together path (warehouseJobs root target mode projection keeps run) host events s)
    (hstore : (s.1 i).store = none) : stagedBy i events = [] := by
  obtain ⟨projected, haccount⟩ := h.account i
  have hlength := haccount.length_staged
  rw [staged_seenBy, haccount.unopened hstore] at hlength
  exact List.length_eq_zero_iff.mp hlength

/-- Closing an open sink removes all that lies below the folder of its job. -/
theorem emptied {answer : ConnectorResult Unit} {path : FilePath} (hpath : FileTree.IsPath path)
    (h : Together path (warehouseJobs root target mode projection keeps run) host events s)
    (hstep : SharedStep i (.closed answer) s s') (hkeeps : keeps i = false)
    (hstore : (s.1 i).store ≠ none) {p : ObjectPath} (hp : p.IsProper)
    (hbelow : p.isBelow (.ofText (jobFolder (.directory root) (run i))) = true) :
    (Store.directory path).get? s'.2.shelves p = none := by
  obtain ⟨projected, haccount⟩ := h.account i
  have hkeeps : (s.1 i).keeps = false :=
    (congrArg StagingSink.keeps haccount.fresh_eq :).trans hkeeps
  exact hstep.call.emptied hpath (h.uses i) hkeeps hstore hp (h.folder_eq i ▸ hbelow)

end Together

/-! ### Two jobs -/

/-- The jobs of two runs that stage in the root directory and publish in the tables `a` and `b`. -/
def twoJobs : Bool → StagingSink :=
  warehouseJobs "/" (fun second => if second then "b" else "a") (fun _ => .append) (fun _ => .all)
    (fun _ => false) (fun second => ⟨second.toNat⟩)

theorem full_twoJobs_ne (i j : Bool) (h : i ≠ j) :
    RunId.full ⟨i.toNat⟩ ≠ RunId.full ⟨j.toNat⟩ := by
  have hne : RunId.full ⟨0⟩ ≠ RunId.full ⟨1⟩ := by decide +kernel
  cases i <;> cases j
  · exact absurd rfl h
  · exact hne
  · exact hne.symm
  · exact absurd rfl h

theorem isPath_workingDirectory : FileTree.IsPath (Host.new []).shelves.files.workingDirectory :=
  List.forall_mem_nil _

/-- The two sinks when the directory has been opened. -/
def openJobs (i : Bool) : StagingSink := { twoJobs i with store := some (.directory []) }

theorem openJobs_opened (i : Bool) :
    Step (twoJobs i, Host.new []) (.opened (.ok ())) (openJobs i, Host.new []) :=
  .opened (complete_openCall (twoJobs i) 0 (Host.new []))

/-- A call of one sink leaves the others as they are. -/
theorem SharedStep.of_call {jobs jobs' : ι → StagingSink} {host host' : Host} {g g' : StagingSink}
    (hcall : event.isCall = true) (hstep : Step (g, host) event (g', host')) (hjob : jobs i = g)
    (hjobs : jobs' = Function.update jobs i g') :
    SharedStep i event (jobs, host) (jobs', host') := by
  subst hjob hjobs
  refine ⟨hcall, ?_, fun _ hj => Function.update_of_ne hj _ _⟩
  dsimp only
  rwa [Function.update_self]

/-- A part is staged by a write for which the store has room. -/
theorem exists_write_eq {g : StagingSink} {shelves shelves' : Shelves} {batch projected : Batch}
    {store store' : Store} (hrows : batch.isEmpty = false)
    (hproject : batch.project g.projection = .ok projected) (hstore : g.store = some store)
    (hput : store.put? shelves (partPath g.folder g.parts.length) (.text projected.toJsonLines) =
      some (store', shelves')) :
    ∃ part schema ack, part.path = partPath g.folder g.parts.length ∧
      g.write shelves batch =
        (({ g with store := some store', parts := g.parts ++ [part], schema }, shelves'),
          .ok ack) := by
  have hput' : store.put? shelves g.nextPart (.text projected.toJsonLines) =
    some (store', shelves') := hput
  rw [write, if_neg (by simp [hrows]), hproject]
  simp only [hstore, hput']
  exact ⟨_, _, _, rfl, rfl⟩

/-- The second of the jobs stages a batch, and then the first is closed. -/
theorem exists_staged_twoJobs {batch : Batch} (hrows : batch.isEmpty = false) :
    ∃ events s part, SharedTrace (twoJobs, Host.new []) events s ∧
      stagedBy true events = [batch] ∧ s.2.tables.get? "b" = none ∧
      (s.1 true).loader = .table "b" .append ∧ (s.1 true).store = some (.directory []) ∧
      (s.1 true).parts = [part] ∧
      (Store.directory []).get? s.2.shelves part.path = some (.text batch.toJsonLines) := by
  -- The second sink stages the batch in the empty directory.
  have hroom : ((Store.directory []).put? (Host.new []).shelves
      (partPath (jobFolder (.directory "/") ⟨1⟩) 0) (.text batch.toJsonLines)).isSome = true := rfl
  obtain ⟨⟨store, shelves⟩, hput⟩ := Option.isSome_iff_exists.mp hroom
  cases eq_directory_of_isLike (Store.isLike_put? hput).1
  obtain ⟨part, schema, ack, hpart, hwrite⟩ :=
    exists_write_eq (g := openJobs true) hrows rfl rfl hput
  have hwritten := complete_writeCall (openJobs true) 0 batch (Host.new [])
  rw [hwrite] at hwritten
  -- Closing the first sink leaves the part where it is.
  have hclosed := Step.closed (complete_closeCall (openJobs false) 0 { Host.new [] with shelves })
  have huses : UsesArea (.directory []) (openJobs false) := by
    rintro _ ⟨⟩
    exact .refl _
  have hspared := hclosed.spared rfl (List.forall_mem_nil _) huses rfl
  have hwithin : (partPath (jobFolder (.directory "/") ⟨1⟩) 0).IsWithin
      (.ofText (jobFolder (.directory "/") ⟨1⟩)) :=
    ObjectPath.isWithin_of_isBelow (isBelow_partPath _ 0)
  have hcontent := hspared.outside _ (isProper_partPath _ 0)
    (not_isWithin_jobFolder (full_twoJobs_ne true false (by decide)) hwithin)
  rw [Store.get?_put? hput, if_pos rfl] at hcontent
  have hstaged : stagedBy true [(false, .opened (.ok ())), (true, .opened (.ok ())),
      (true, .written batch (.ok ack)), (false, .closed (.ok ()))] = [batch] := by
    simp [stagedBy, staged, StagingEvent.staged?, List.filterMap_cons, hrows]
  refine ⟨_, _, part, (((SharedTrace.refl.step
    (.of_call (i := false) rfl (openJobs_opened false) rfl rfl)).step
    (.of_call (i := true) rfl (openJobs_opened true) rfl rfl)).step
    (.of_call (i := true) rfl (.written hwritten) rfl rfl)).step
    (.of_call (i := false) rfl hclosed rfl rfl), hstaged, rfl, rfl, rfl, rfl, ?_⟩
  rw [hpart]
  exact hcontent

/-- The second of the jobs commits a batch that it has staged. -/
theorem exists_commit_twoJobs (batch : Batch) {records : List Record}
    (hrows : batch.isEmpty = false) (hread : batch.toRecords.mapM Record.reread? = some records) :
    ∃ events s s' receipt, SharedTrace (twoJobs, Host.new []) events s ∧
      SharedStep true (.committed (.ok receipt)) s s' ∧ stagedBy true events = [batch] ∧
      s.2.tables.get? "b" = none := by
  obtain ⟨events, s, part, hrun, hstaged, htable, hloader, hstore, hparts, hcontent⟩ :=
    exists_staged_twoJobs hrows
  have hpart : recordsAt? (.directory []) s.2.shelves part.path = some records := by
    rw [recordsAt?, hcontent, ← hread, ← recordsOfText?_eq_mapM]
    rfl
  have hrecords : (s.1 true).stagedRecords s.2.shelves = .ok [records].flatten :=
    stagedRecords_eq_ok.mpr ⟨_, [records], hstore, by simp [hparts, hpart], rfl⟩
  have hcommit := complete_commitCall (s.1 true) 0 s.2
  rw [hrecords, hloader] at hcommit
  exact ⟨events, s, (_, _), _, hrun, .of_call rfl (.committed hcommit) rfl rfl, hstaged, htable⟩

theorem eq_of_project_all {batches projected : List Batch}
    (h : batches.map (·.project .all) = projected.map .ok) : projected = batches :=
  ((List.map_inj_right fun _ _ => Except.ok.inj).mp h).symm

/-! ### What the jobs do to each other -/

/-- Sinks whose runs differ do not disturb each other, when they stage in one directory, publish in
the same tables and are called in any order. No call but a successful commit changes a table, and a
commit publishes the records of the batches that its own sink has acknowledged, as they are read
back from their texts. No call changes anything in the folder of another job. Closing an open sink
that is not to keep its parts removes all below the folder of its job; one that is not open has
staged nothing. -/
theorem SharedTrace.do_not_disturb
    (hworking : FileTree.IsPath host.shelves.files.workingDirectory)
    (hruns : ∀ i j, i ≠ j → (run i).full ≠ (run j).full)
    (hrun : SharedTrace (warehouseJobs root target mode projection keeps run, host) events s)
    (hstep : SharedStep i event s s') :
    ((∀ receipt, event ≠ .committed (.ok receipt)) → s'.2.tables = s.2.tables) ∧
    (∀ receipt, event = .committed (.ok receipt) →
      Publishes (target i) (mode i) (projection i) (stagedBy i events) s.2.tables s'.2.tables ∧
      Loads (target i) (mode i) (projection i) (stagedBy i events) s.2.tables s'.2.tables) ∧
    (∀ j, j ≠ i → ∀ p : ObjectPath, p.IsProper →
      p.IsWithin (.ofText (jobFolder (.directory root) (run j))) →
      (Store.directory (areaPath root host)).get? s'.2.shelves p =
        (Store.directory (areaPath root host)).get? s.2.shelves p) ∧
    (∀ answer, event = .closed answer → keeps i = false →
      ((s.1 i).store = none → stagedBy i events = []) ∧
      ((s.1 i).store ≠ none → ∀ p : ObjectPath, p.IsProper →
        p.isBelow (.ofText (jobFolder (.directory root) (run i))) = true →
        (Store.directory (areaPath root host)).get? s'.2.shelves p = none)) := by
  have hpath := isPath_areaPath root hworking
  have htogether := Together.of_trace hpath hruns hrun
  refine ⟨fun hevent => ?_, ?_, fun j hj p hp hwithin => ?_, ?_⟩
  · obtain ⟨projected, haccount⟩ := htogether.account i
    exact hstep.call.tables_eq hstep.isCall hevent ⟨target i, mode i, haccount.loader_eq⟩
  · rintro receipt rfl
    have hpublishes := htogether.publishes hstep
    exact ⟨hpublishes, hpublishes.loads⟩
  · exact (htogether.spared hpath hstep).outside p hp
      (not_isWithin_jobFolder (hruns j i hj) hwithin)
  · rintro answer rfl hkeeps
    exact ⟨htogether.stagedBy_eq_nil, fun hstore p hp hbelow =>
      htogether.emptied hpath hstep hkeeps hstore hp hbelow⟩

theorem SharedTrace.do_not_disturb_twoJobs :
    ∃ events s s' receipt, SharedTrace (twoJobs, Host.new []) events s ∧
      SharedStep true (.committed (.ok receipt)) s s' ∧
      stagedBy true events = [oneFieldBatch] ∧
      s'.2.tables.get? "b" = some [Record.oneField] := by
  have hback : ∀ r ∈ oneFieldBatch.toRecords, r.ReadsBack := by
    rw [toRecords_oneFieldBatch, List.forall_mem_singleton]
    exact Record.oneField_readsBack
  obtain ⟨events, s, s', receipt, hrun, hstep, hstaged, hbefore⟩ :=
    exists_commit_twoJobs oneFieldBatch rfl (mapM_reread?_eq_some hback)
  refine ⟨events, s, s', receipt, hrun, hstep, hstaged, ?_⟩
  obtain ⟨-, hpublished, -⟩ :=
    hrun.do_not_disturb isPath_workingDirectory full_twoJobs_ne hstep
  obtain ⟨-, projected, hprojected, htables⟩ := hpublished _ rfl
  rw [hstaged] at hprojected
  cases eq_of_project_all hprojected
  have htable : s'.2.tables =
      s.2.tables.insert "b" ((s.2.tables.get? "b").getD [] ++ [Record.oneField]) :=
    htables (by simpa using hback)
  rw [htable, KeyMap.get?_insert, if_pos rfl, hbefore]
  rfl

/-- The batch with one row, in which the column `x` is a small number. -/
def tinyFieldBatch : Batch := ⟨⟨[⟨"x", .float64, false⟩]⟩, [[.float 1e-23]]⟩

/-- A commit does not always publish the records that its sink has acknowledged. -/
theorem SharedTrace.not_publishes_acknowledged :
    ∃ events s s' receipt, SharedTrace (twoJobs, Host.new []) events s ∧
      SharedStep true (.committed (.ok receipt)) s s' ∧
      stagedBy true events = [tinyFieldBatch] ∧ s.2.tables.get? "b" = none ∧
      s'.2.tables.get? "b" ≠ some tinyFieldBatch.toRecords := by
  have htiny : tinyFieldBatch.toRecords = [Record.tinyField] := rfl
  obtain ⟨r, hread⟩ : ∃ r, Record.tinyField.reread? = some r := ⟨_, Record.reread?_tinyField⟩
  have hreads : tinyFieldBatch.toRecords.mapM Record.reread? = some [r] := by
    simp [htiny, hread]
  obtain ⟨events, s, s', receipt, hrun, hstep, hstaged, hbefore⟩ :=
    exists_commit_twoJobs tinyFieldBatch rfl hreads
  refine ⟨events, s, s', receipt, hrun, hstep, hstaged, hbefore, ?_⟩
  have htogether :=
    Together.of_trace (isPath_areaPath _ isPath_workingDirectory) full_twoJobs_ne hrun
  obtain ⟨projected, records, hprojected, hrecords, hafter⟩ := htogether.publishes hstep
  rw [hstaged] at hprojected
  cases eq_of_project_all hprojected
  rw [List.flatMap_singleton, hreads] at hrecords
  cases hrecords
  have htable : s'.2.tables = s.2.tables.insert "b" ((s.2.tables.get? "b").getD [] ++ [r]) := hafter
  rw [htable, KeyMap.get?_insert, if_pos rfl, hbefore, htiny]
  intro hsame
  cases hsame
  exact Record.reread?_tinyField_ne hread

end BatchTransfer.Staging.StagingSink
