import BatchTransfer.Proofs.Files.Writing
import BatchTransfer.Proofs.Job.Endings
import BatchTransfer.Proofs.Registry.Making

/-!
# What jobs leave among files

A file sink may find any files in its directory. When it is opened it may take earlier data away, at
any depth below the directory; each batch becomes a part, and a commit leaves the marker. All other
files stay as they were (`FileSink.Deposit`), whatever comes of the job (`Host.PlanRun.deposits`).
-/

namespace BatchTransfer

open JobEvent (streamRead? answers batchesTaken? allAcknowledgements allAcknowledged)
open FileTree (IsName IsPath)

namespace FileTree

variable {t t' t'' : FileTree} {directory path other : FilePath}

/-! ### Trees with the same files -/

/-- Whether two trees have the same files and the same working directory, whatever directories they
have. -/
structure SameFiles (t t' : FileTree) : Prop where
  workingDirectory : t'.workingDirectory = t.workingDirectory
  file : ∀ (k : String) content,
    t'.entries[k]? = some (.file content) ↔ t.entries[k]? = some (.file content)

namespace SameFiles

theorem refl (t : FileTree) : t.SameFiles t := ⟨rfl, fun _ _ => Iff.rfl⟩

theorem trans (h : t.SameFiles t') (h' : t'.SameFiles t'') : t.SameFiles t'' :=
  ⟨h'.workingDirectory.trans h.workingDirectory, fun k content =>
    (h'.file k content).trans (h.file k content)⟩

/-- A directory that is put where nothing stands changes no file. -/
theorem put_directory (hnone : t.entry? path = none) : t.SameFiles (t.put path .directory) where
  workingDirectory := rfl
  file k content := by
    rw [FileTree.put, Std.TreeMap.getElem?_insert]
    split
    · rename_i hkey
      have habsent : t.entries[k]? = none := Std.LawfulEqCmp.eq_of_compare hkey ▸ hnone
      simp [habsent]
    · rfl

/-- Directories are created without a change to any file. -/
theorem of_createAlong {at_ : FilePath} {names : List String}
    (h : t.createAlong at_ names = some (t', directory)) : t.SameFiles t' := by
  fun_induction FileTree.createAlong t at_ names with
  | case1 => cases h; exact .refl _
  | case2 t at_ rest ih => exact ih h
  | case3 t at_ name rest _ _ ih => exact ih h
  | case4 => cases h
  | case5 t at_ name rest _ hnone ih => exact (put_directory hnone).trans (ih h)

theorem content?_eq (h : t.SameFiles t') (path : FilePath) :
    t'.content? path = t.content? path := by
  refine Option.ext fun content => ?_
  rw [content?_eq_some_iff, content?_eq_some_iff]
  exact h.file (key path) content

theorem mem_filesBelow_iff (h : t.SameFiles t') {file : FilePath × Content} :
    file ∈ t'.filesBelow directory ↔ file ∈ t.filesBelow directory := by
  rw [mem_filesBelow, mem_filesBelow]
  exact exists_congr fun k => and_congr_left' (h.file k file.2)

end SameFiles

/-! ### Files in a directory, among others -/

/-- Whether the files stand in the directory, each under its name, and whatever is to stand under
every other path stands there. -/
structure HoldsAmong (t : FileTree) (directory : FilePath) (files : List (String × Content))
    (elsewhere : FilePath → Option Content) : Prop where
  holds : ∀ file ∈ files, t.content? (directory ++ [file.1]) = some file.2
  others : ∀ path, IsPath path → (∀ file ∈ files, path ≠ directory ++ [file.1]) →
    t.content? path = elsewhere path

/-- A file that is written under a new name joins those that are there. -/
theorem HoldsAmong.writeAt {files : List (String × Content)} {elsewhere : FilePath → Option Content}
    {name : String} {content : Content} (h : t.HoldsAmong directory files elsewhere)
    (hdirectory : IsPath directory) (hname : IsName name) (hnew : name ∉ files.map Prod.fst)
    (hwrite : t.writeAt (directory ++ [name]) content = some t') :
    t'.HoldsAmong directory (files ++ [(name, content)]) elsewhere where
  holds file hfile := by
    rw [content?_writeAt hwrite]
    rcases List.mem_append.mp hfile with hfile | hfile
    · have hne : key (directory ++ [file.1]) ≠ key (directory ++ [name]) := by
        intro hkey
        have hsame : file.1 = name := intercalate_inj ((String.append_right_inj _).mp hkey)
        exact hnew (hsame ▸ List.mem_map_of_mem hfile)
      rw [if_neg hne, h.holds file hfile]
    · rw [List.mem_singleton.mp hfile, if_pos rfl]
  others path hpath hother := by
    have hne : key path ≠ key (directory ++ [name]) := by
      intro hkey
      refine hother (name, content) (List.mem_append_right _ (List.mem_singleton_self _)) ?_
      exact key_inj hpath (isPath_concat hdirectory hname) hkey
    rw [content?_writeAt hwrite, if_neg hne]
    exact h.others path hpath fun file hfile => hother file (List.mem_append_left _ hfile)

end FileTree

open FileTree (SameFiles)

namespace FileSink

variable {start sink sink' : FileSink} {before t t' : FileTree} {directory path rest : FilePath}
  {batches written : List Batch} {batch : Batch} {marked : Bool}

/-! ### Data of earlier runs -/

/-- The directory that the path of the sink leads to. -/
def target (s : FileSink) (t : FileTree) : FilePath :=
  FileTree.walk (t.start s.path) (FileTree.names s.path)

theorem isPath_target (h : IsPath t.workingDirectory) (s : FileSink) : IsPath (s.target t) :=
  FileTree.isPath_walk (FileTree.isPath_start h s.path) fun _ => FileTree.isName_of_mem_names

theorem target_eq (h : before.SameFiles t) (s : FileSink) : s.target t = s.target before := by
  rw [target, target, FileTree.start_congr h.workingDirectory]

/-- Whether a path leads to data of an earlier run below a directory, at any depth. -/
def isEarlierBelow (directory path : FilePath) : Bool :=
  directory.isPrefixOf path && isEarlier (path.drop directory.length)

@[simp]
theorem isEarlierBelow_append (directory rest : FilePath) :
    isEarlierBelow directory (directory ++ rest) = isEarlier rest := by
  rw [isEarlierBelow, List.drop_left, List.isPrefixOf_iff_prefix.mpr (List.prefix_append _ _),
    Bool.true_and]

theorem isEarlierBelow_eq_true_iff :
    isEarlierBelow directory path = true ↔
      ∃ rest, path = directory ++ rest ∧ isEarlier rest = true := by
  constructor
  · intro h
    rw [isEarlierBelow, Bool.and_eq_true] at h
    obtain ⟨rest, rfl⟩ := List.isPrefixOf_iff_prefix.mp h.1
    exact ⟨rest, rfl, by simpa using h.2⟩
  · rintro ⟨rest, rfl, hrest⟩
    rw [isEarlierBelow_append, hrest]

/-- A part is data of a run. -/
theorem isEarlier_partNameAt (s : FileSink) (i : Nat) : isEarlier [s.partNameAt i] = true := by
  have hbegin : partStart.toList.isPrefixOf (s.partNameAt i).toList = true := by
    rw [toList_partNameAt]
    exact List.isPrefixOf_iff_prefix.mpr (List.prefix_append _ _)
  have hhash : '#' ∉ (s.partNameAt i).toList :=
    not_mem_partNameAt (by decide) (by decide) (by decide)
      (fun format => by cases format <;> decide) s i
  have hended : isUnfinished (s.partNameAt i) = false := by simp [isUnfinished, hhash]
  simp [isEarlier, hbegin, hended]

theorem isEarlier_marker : isEarlier [marker] = true := by decide

theorem mem_earlier :
    rest ∈ earlier t directory ↔
      isEarlier rest = true ∧ ∃ content, (rest, content) ∈ t.filesBelow directory := by
  simp [earlier, and_comm]

/-- Where a tree has the same files, it holds the same data of earlier runs. -/
theorem isEmpty_earlier_eq (h : before.SameFiles t) (directory : FilePath) :
    (earlier t directory).isEmpty = (earlier before directory).isEmpty := by
  rw [Bool.eq_iff_iff, List.isEmpty_iff, List.isEmpty_iff, List.eq_nil_iff_forall_not_mem,
    List.eq_nil_iff_forall_not_mem]
  refine forall_congr' fun rest => not_congr ?_
  rw [mem_earlier, mem_earlier]
  exact and_congr_right fun _ => exists_congr fun content => h.mem_filesBelow_iff

/-- All data of earlier runs below the directory is removed, and nothing else. -/
theorem content?_removeEarlier (h : IsPath path) :
    (removeEarlier t directory).content? path =
      if isEarlierBelow directory path then none else t.content? path := by
  have hnames {rest : FilePath} (hrest : rest ∈ earlier t directory) :
      IsPath (directory ++ rest) := by
    obtain ⟨-, content, hfile⟩ := mem_earlier.mp hrest
    obtain ⟨k, -, hpath⟩ := FileTree.mem_filesBelow.mp hfile
    rw [hpath]
    exact fun name hname => FileTree.isName_of_mem_names hname
  split
  · rename_i hbelow
    obtain ⟨rest, rfl, hearlier⟩ := isEarlierBelow_eq_true_iff.mp hbelow
    cases hcontent : t.content? (directory ++ rest) with
    | none =>
        rcases FileTree.content?_foldl_erase (directory ++ ·) (earlier t directory) t
          (directory ++ rest) with hsame | hgone
        · exact hsame.trans hcontent
        · exact hgone
    | some content =>
        refine FileTree.content?_foldl_erase_of_mem _ _ ⟨rest, ?_, rfl⟩ t
        refine mem_earlier.mpr ⟨hearlier, content, FileTree.mem_filesBelow.mpr ?_⟩
        exact ⟨_, FileTree.content?_eq_some_iff.mp hcontent, (FileTree.pathOfKey_key h).symm⟩
  · rename_i houtside
    refine FileTree.content?_foldl_erase_of_ne _ _ (fun rest hrest hkey => houtside ?_) t
    rw [FileTree.key_inj h (hnames hrest) hkey, isEarlierBelow_append]
    exact (mem_earlier.mp hrest).1

/-! ### What a sink leaves -/

/-- Whether the sink leaves all batches out, because it finds data of an earlier run. -/
def leavesOut (s : FileSink) (before : FileTree) : Bool :=
  decide (s.saveMode = .ignore) && !(earlier before (s.target before)).isEmpty

/-- What a sink leaves under a path that has been opened: the file that has been there before,
unless it is data of an earlier run that is overwritten. -/
def kept (s : FileSink) (before : FileTree) (path : FilePath) : Option Content :=
  if decide (s.saveMode = .overwrite) && isEarlierBelow (s.target before) path then none
  else before.content? path

/-- The files that hold batches, and the marker where the sink has left it. -/
def filesWith (s : FileSink) (written : List Batch) (marked : Bool) : List (String × Content) :=
  s.filesOf written ++ if marked then [(marker, .text "")] else []

theorem filesWith_false (s : FileSink) (written : List Batch) :
    s.filesWith written false = s.filesOf written :=
  List.append_nil _

/-- What a sink has left that has been opened and has acknowledged batches: the batches after the
projection, each in a part of its own, unless it leaves them out, then perhaps the marker, and
besides them what it has kept. -/
structure Deposit (s : FileSink) (before : FileTree) (batches written : List Batch) (marked : Bool)
    (t : FileTree) : Prop where
  projected : s.leavesOut before = false → batches.map (·.project s.projection) = written.map .ok
  leftOut : s.leavesOut before = true → written = []
  files : t.HoldsAmong (s.target before) (s.filesWith written marked) (s.kept before)

/-- A file that is left is data of a run. -/
theorem isEarlier_of_mem_filesWith {file : String × Content}
    (h : file ∈ start.filesWith written marked) : isEarlier [file.1] = true := by
  rcases List.mem_append.mp h with h | h
  · obtain ⟨part, hpart, rfl⟩ := List.mem_map.mp h
    obtain ⟨i, -, hname⟩ := mem_partsOf.mp hpart
    rw [hname]
    exact isEarlier_partNameAt ..
  · split at h
    · rw [List.mem_singleton.mp h]
      exact isEarlier_marker
    · cases h

namespace Deposit

/-- What is no data of an earlier run below the directory stays as it was. -/
theorem content?_eq (h : start.Deposit before batches written marked t) (hpath : IsPath path)
    (houtside : isEarlierBelow (start.target before) path = false) :
    t.content? path = before.content? path := by
  rw [h.files.others path hpath, kept, houtside, Bool.and_false, if_neg Bool.false_ne_true]
  rintro file hfile rfl
  rw [isEarlierBelow_append, isEarlier_of_mem_filesWith hfile] at houtside
  cases houtside

/-- What has lain deeper than in the directory itself is kept as it was when the sink was opened. -/
theorem content?_of_deep (h : start.Deposit before batches written marked t)
    (hpath : IsPath (start.target before ++ rest)) (hdeep : rest.length ≠ 1) :
    t.content? (start.target before ++ rest) = start.kept before (start.target before ++ rest) := by
  refine h.files.others _ hpath fun file hfile hsame => hdeep ?_
  rw [List.append_cancel_left hsame, List.length_singleton]

end Deposit

/-- The sink with what it has counted, opened on a directory. -/
def working (s : FileSink) (before : FileTree) (written : List Batch) : FileSink :=
  { s with
    directory := some (s.target before)
    parts := s.parts + written.length
    rows := s.rows + Batch.totalSize written
    discards := s.leavesOut before }

/-- A sink that fails to be opened changes no file. -/
theorem sameFiles_of_openDirectory (hsame : before.SameFiles t) {e : ConnectorError}
    (h : start.openDirectory t = ((sink, t'), .error e)) :
    sink = start ∧ before.SameFiles t' := by
  unfold openDirectory at h
  split at h
  · cases h
    exact ⟨rfl, hsame⟩
  · rename_i created directory hcreate
    have hcreated := hsame.trans (SameFiles.of_createAlong hcreate)
    split at h
    · cases h
    · cases h
    · split at h <;> cases h
      exact ⟨rfl, hcreated⟩
    · cases h

/-- A sink that has just been opened has left nothing yet. -/
theorem Deposit.opened (hfresh : start.discards = false) (hsame : before.SameFiles t)
    (h : start.openDirectory t = ((sink, t'), .ok ())) :
    sink = start.working before [] ∧ start.Deposit before [] [] false t' := by
  have hkeeps (hmode : start.saveMode ≠ .ignore) : start.leavesOut before = false := by
    simp [leavesOut, hmode]
  have hopened {opened : FileTree} (hfiles : ∀ path, IsPath path →
      opened.content? path = start.kept before path) : start.Deposit before [] [] false opened :=
    ⟨fun _ => rfl, fun _ => rfl, nofun, fun path hpath _ => hfiles path hpath⟩
  unfold openDirectory at h
  split at h
  · cases h
  · rename_i created directory hcreate
    have hcreated := hsame.trans (SameFiles.of_createAlong hcreate)
    have hdirectory : directory = start.target before := by
      rw [(FileTree.createAlong_eq hcreate).1, FileTree.start_congr hsame.workingDirectory]
      rfl
    subst hdirectory
    -- Only a mode that overwrites takes files away, and only one that ignores leaves batches out.
    have hsameContent (hmode : start.saveMode ≠ .overwrite) (path : FilePath) :
        created.content? path = start.kept before path := by
      rw [hcreated.content?_eq, kept, decide_eq_false hmode, Bool.false_and,
        if_neg Bool.false_ne_true]
    split at h
    · rename_i hmode
      cases h
      refine ⟨?_, hopened fun path _ => hsameContent (by simp [hmode]) path⟩
      simp [working, hkeeps (by simp [hmode]), hfresh]
    · rename_i hmode
      cases h
      refine ⟨?_, hopened fun path hpath => ?_⟩
      · simp [working, hkeeps (by simp [hmode]), hfresh]
      · rw [content?_removeEarlier hpath, hcreated.content?_eq, kept, decide_eq_true hmode,
          Bool.true_and]
    · rename_i hmode
      split at h <;> cases h
      refine ⟨?_, hopened fun path _ => hsameContent (by simp [hmode]) path⟩
      simp [working, hkeeps (by simp [hmode]), hfresh]
    · rename_i hmode
      cases h
      refine ⟨?_, hopened fun path _ => hsameContent (by simp [hmode]) path⟩
      simp [working, leavesOut, hmode, isEmpty_earlier_eq hcreated]

/-- How a sink answers to a batch: it leaves the batch out, or it puts the batch after the
projection into a part. -/
def Answers (s : FileSink) (before : FileTree) (batch : Batch) (ack : Acknowledgement) : Prop :=
  (s.leavesOut before = true ∧ ack = .none) ∨
    s.leavesOut before = false ∧ ∃ projected, batch.project s.projection = .ok projected ∧
      ack = s.acknowledgement projected

/-- A write that fails leaves the sink and the files as they are. -/
theorem write_error {e : ConnectorError} (h : sink.write t batch = ((sink', t'), .error e)) :
    sink' = sink ∧ t' = t := by
  unfold FileSink.write at h
  split at h
  · cases h
  · split at h
    · cases h
      exact ⟨rfl, rfl⟩
    · dsimp only at h
      split at h
      · cases h
        exact ⟨rfl, rfl⟩
      · split at h <;> cases h
        exact ⟨rfl, rfl⟩

namespace Deposit

/-- A batch that is acknowledged is left out, or is the next part. -/
theorem write (h : start.Deposit before batches written false t)
    (hworking : IsPath before.workingDirectory) (hrows : batch.isEmpty = false)
    {ack : Acknowledgement}
    (hwrite : (start.working before written).write t batch = ((sink', t'), .ok ack)) :
    start.Answers before batch ack ∧ ∃ written', sink' = start.working before written' ∧
      Batch.totalSize written' = Batch.totalSize written + ack.rows ∧
      start.Deposit before (batches ++ [batch]) written' false t' := by
  -- A batch without rows would be passed over as well, but a job gives none to its sink.
  unfold FileSink.write at hwrite
  rw [hrows, Bool.or_false] at hwrite
  split at hwrite
  · rename_i hleaves
    have hleaves : start.leavesOut before = true := hleaves
    cases hwrite
    refine ⟨.inl ⟨hleaves, rfl⟩, written, rfl, rfl, fun hkeeps => ?_, h.leftOut, h.files⟩
    rw [hleaves] at hkeeps
    cases hkeeps
  · rename_i hkeeps
    have hkeeps : start.leavesOut before = false := eq_false_of_ne_true hkeeps
    split at hwrite
    · cases hwrite
    · rename_i projected hproject
      have hproject : batch.project start.projection = .ok projected := hproject
      dsimp only [working] at hwrite
      split at hwrite
      · cases hwrite
      · rename_i hwritten
        cases hwrite
        refine ⟨.inr ⟨hkeeps, projected, hproject, rfl⟩, written ++ [projected], ?_, ?_,
          fun _ => ?_, fun hleaves => ?_, ?_⟩
        · simp [working, Nat.add_assoc]
        · simp
        · simp [h.projected hkeeps, hproject]
        · rw [hkeeps] at hleaves
          cases hleaves
        · have hfiles := h.files
          rw [filesWith_false] at hfiles
          rw [filesWith_false, filesOf_concat]
          exact hfiles.writeAt (start.isPath_target hworking)
            (start.isName_partNameAt _) (start.partNameAt_not_mem written) hwritten

/-- A commit leaves the marker, unless the sink leaves all batches out. -/
theorem commit (h : start.Deposit before batches written false t)
    (hworking : IsPath before.workingDirectory) {answer : ConnectorResult CommitReceipt}
    (hcommit : (start.working before written).commit t = (t', answer)) :
    (∃ e, answer = .error e ∧ t' = t) ∨
      answer = .ok (start.working before written).receipt ∧
        start.Deposit before batches written (!start.leavesOut before) t' := by
  unfold FileSink.commit at hcommit
  split at hcommit
  · rename_i hleaves
    have hleaves : start.leavesOut before = true := hleaves
    cases hcommit
    refine .inr ⟨rfl, ?_⟩
    rw [hleaves]
    exact h
  · rename_i hkeeps
    have hkeeps : start.leavesOut before = false := eq_false_of_ne_true hkeeps
    dsimp only [working] at hcommit
    split at hcommit
    · cases hcommit
      exact .inl ⟨_, rfl, rfl⟩
    · rename_i hwritten
      cases hcommit
      refine .inr ⟨rfl, h.projected, h.leftOut, ?_⟩
      have hfiles := h.files
      rw [filesWith_false] at hfiles
      rw [hkeeps]
      exact hfiles.writeAt (start.isPath_target hworking) (by decide)
        (start.marker_not_mem written) hwritten

end Deposit

/-! ### Jobs -/

/-- The milestones of a job into files. For what reasons a call may fail is left open. -/
def milestones (start : FileSink) (before : FileTree) : Milestones JobSite where
  unopened site := site.sink = .file start ∧ before.SameFiles site.host.files
  taking batches rows site := ∃ written, site.sink = .file (start.working before written) ∧
    start.Deposit before batches written false site.host.files ∧ rows = Batch.totalSize written
  committed batches rows receipt site := ∃ sink written, site.sink = .file sink ∧
    start.Deposit before batches written (!start.leavesOut before) site.host.files ∧
    rows = Batch.totalSize written ∧ receipt = ⟨rows, some ("file://" ++ start.path)⟩
  refusal _ := True
  rejection _ _ := True
  failure _ _ := True

/-- What a job leaves that has come to its end: the files that were there if the sink has not been
opened, and otherwise the batches that it has acknowledged, perhaps with the marker. -/
def Leaves (start : FileSink) (before : FileTree) (marked : Bool) (t : FileTree) :
    Option (List Batch) → Prop
  | none => before.SameFiles t
  | some batches => ∃ written, start.Deposit before batches written marked t

section Jobs

variable {α : Type} {site t : JobSite} {sink start : FileSink} {before : FileTree}

/-- A call of a file sink takes effect at once, on the sink and the files. -/
theorem ends_onSink (call : Sink → Host → Call (Sink × Host) α)
    (effect : FileSink → FileTree → (FileSink × FileTree) × ConnectorResult α)
    (hcall : ∀ f host, call (.file f) host =
      .now (.file (effect f host.files).1.1, host.setFiles (effect f host.files).1.2)
        (effect f host.files).2)
    (hsink : site.sink = .file sink) {answer : ConnectorResult α}
    (hends : (site.onSink (call site.sink site.host)).Ends t answer) :
    ∃ sink', t.sink = .file sink' ∧
      effect sink site.host.files = ((sink', t.host.files), answer) :=
  JobSite.ends_now_onSink .file Host.files Host.setFiles (fun _ _ => rfl) call effect hcall hsink
    hends

/-- A closing of the sink changes no file. -/
theorem closed_onSink {time : Nat} {answer : ConnectorResult Unit} (hsink : site.sink = .file sink)
    (hends : (site.onSink (site.sink.closeCall time site.host)).Ends t answer) :
    (∃ sink', t.sink = .file sink') ∧ t.host.files = site.host.files := by
  obtain ⟨sink', hsink', heffect⟩ := ends_onSink (fun x host => x.closeCall time host)
    (fun f files => ((f.close, files), .ok ())) (fun _ _ => rfl) hsink hends
  simp only [Prod.mk.injEq] at heffect
  exact ⟨⟨sink', hsink'⟩, heffect.1.2.symm⟩

/-- No call of the source changes the sink or a file. -/
theorem files_eq_of_onSource {c : Call (Source × Host) α} {answer : ConnectorResult α}
    (hc : c.Leaves (·.2.withoutRehearsals) (site.source, site.host))
    (h : (site.onSource c).Ends t answer) :
    t.sink = site.sink ∧ t.host.files = site.host.files := by
  obtain ⟨hsink, hhost⟩ := JobSite.host_eq_of_onSource hc h
  exact ⟨hsink, (congrArg Host.files hhost :)⟩

/-- A change of neither the sink nor the files. -/
theorem milestones_kept {s t : JobSite}
    (h : t.sink = s.sink ∧ t.host.files = s.host.files) : (start.milestones before).Kept s t := by
  obtain ⟨hsink, hfiles⟩ := h
  refine ⟨?_, fun _ _ => ?_, fun _ _ _ => ?_⟩
  · rintro ⟨hs, hsame⟩
    exact ⟨hsink.trans hs, hfiles ▸ hsame⟩
  · rintro ⟨written, hs, hdeposit, hrows⟩
    exact ⟨written, hsink.trans hs, hfiles ▸ hdeposit, hrows⟩
  · rintro ⟨sink, written, hs, hdeposit, hend⟩
    exact ⟨sink, written, hsink.trans hs, hfiles ▸ hdeposit, hend⟩

/-- A write of a sink that has taken batches. -/
theorem write_onSink {time : Nat} {batch : Batch} {written : List Batch}
    {answer : ConnectorResult Acknowledgement}
    (hsink : site.sink = .file (start.working before written))
    (hends : (site.onSink (site.sink.writeCall time batch site.host)).Ends t answer) :
    ∃ sink', t.sink = .file sink' ∧
      (start.working before written).write site.host.files batch =
        ((sink', t.host.files), answer) :=
  ends_onSink (fun x host => x.writeCall time batch host) (fun f files => f.write files batch)
    (fun _ _ => rfl) hsink hends

/-- A commit of a sink that has taken batches. -/
theorem commit_onSink {time : Nat} {written : List Batch} {answer : ConnectorResult CommitReceipt}
    (hsink : site.sink = .file (start.working before written))
    (hends : (site.onSink (site.sink.commitCall time site.host)).Ends t answer) :
    (∃ sink', t.sink = .file sink') ∧
      (start.working before written).commit site.host.files = (t.host.files, answer) := by
  obtain ⟨sink', hsink', heffect⟩ := ends_onSink (fun x host => x.commitCall time host)
    (fun f files => ((f, (f.commit files).1), (f.commit files).2)) (fun _ _ => rfl) hsink hends
  simp only [Prod.mk.injEq] at heffect
  exact ⟨⟨sink', hsink'⟩, Prod.ext heffect.1.2 heffect.2⟩

/-- A job into files passes its milestones. -/
theorem reaches (kind : Role → String) (hfresh : start.discards = false) (hrows : start.rows = 0)
    (hworking : IsPath before.workingDirectory) :
    (JobSite.wiring kind).Reaches (start.milestones before) where
  opens_source hcall := milestones_kept (files_eq_of_onSource (Source.openCall_leaves ..) hcall)
  reads hcall := milestones_kept (files_eq_of_onSource (Source.readCall_leaves ..) hcall)
  closes_source hcall := milestones_kept (files_eq_of_onSource (Source.closeCall_leaves ..) hcall)
  refuses := by
    rintro time s t e ⟨hsink, hsame⟩ hcall
    obtain ⟨sink, hsink', heffect⟩ := ends_onSink (fun x host => x.openCall time host)
      openDirectory (fun _ _ => rfl) hsink hcall
    obtain ⟨rfl, hsame'⟩ := sameFiles_of_openDirectory hsame heffect
    exact ⟨⟨hsink', hsame'⟩, trivial⟩
  opens := by
    rintro time s t ⟨hsink, hsame⟩ hcall
    obtain ⟨sink, hsink', heffect⟩ := ends_onSink (fun x host => x.openCall time host)
      openDirectory (fun _ _ => rfl) hsink hcall
    obtain ⟨rfl, hdeposit⟩ := Deposit.opened hfresh hsame heffect
    exact ⟨[], hsink', hdeposit, rfl⟩
  rejects := by
    rintro time batch batches rows s t e ⟨written, hsink, hdeposit, hcount⟩ hcall
    obtain ⟨sink', hsink', heffect⟩ := write_onSink hsink hcall
    obtain ⟨hsame, hsame'⟩ := write_error heffect
    rw [hsame] at hsink'
    exact ⟨⟨written, hsink', hsame' ▸ hdeposit, hcount⟩, trivial⟩
  writes := by
    rintro time batch batches rows s t ack ⟨written, hsink, hdeposit, hcount⟩ hbatch hcall
    obtain ⟨sink', hsink', heffect⟩ := write_onSink hsink hcall
    obtain ⟨-, written', rfl, hrows', hdeposit'⟩ := hdeposit.write hworking hbatch heffect
    exact ⟨written', hsink', hdeposit', by rw [hcount, hrows']⟩
  fails _ _ := trivial
  commits := by
    rintro time batches rows s t receipt ⟨written, hsink, hdeposit, hcount⟩ hcall
    obtain ⟨⟨sink', hsink'⟩, heffect⟩ := commit_onSink hsink hcall
    obtain ⟨_, ⟨⟩, -⟩ | ⟨hreceipt, hdeposit'⟩ := hdeposit.commit hworking heffect
    cases hreceipt
    refine ⟨sink', written, hsink', hdeposit', hcount, ?_⟩
    rw [receipt, working, hrows, Nat.zero_add, hcount]
  closes := by
    rintro time batches rows receipt s t answer ⟨sink, written, hsink, hdeposit, hend⟩ hcall
    obtain ⟨⟨sink', hsink'⟩, hfiles⟩ := closed_onSink hsink hcall
    exact ⟨sink', written, hsink', hfiles ▸ hdeposit, hend⟩

/-- What a failed job into files leaves. -/
theorem abandons (kind : Role → String) (hworking : IsPath before.workingDirectory) :
    (JobSite.wiring kind).Abandons (start.milestones before) fun taken site =>
      (∃ sink, site.sink = .file sink) ∧ start.Leaves before false site.host.files taken where
  unopened := by
    rintro s ⟨hsink, hsame⟩
    exact ⟨⟨_, hsink⟩, hsame⟩
  taking := by
    rintro batches rows s ⟨written, hsink, hdeposit, -⟩
    exact ⟨⟨_, hsink⟩, written, hdeposit⟩
  uncommitted := by
    rintro time batches rows s t e ⟨written, hsink, hdeposit, -⟩ hcall
    obtain ⟨hsink', heffect⟩ := commit_onSink hsink hcall
    obtain ⟨_, -, hfiles⟩ | ⟨⟨⟩, -⟩ := hdeposit.commit hworking heffect
    exact ⟨hsink', written, hfiles ▸ hdeposit⟩
  closes := by
    rintro role time taken s t answer ⟨⟨sink, hsink⟩, hleft⟩ hcall
    cases role with
    | source =>
        obtain ⟨hsink', hfiles⟩ := files_eq_of_onSource (Source.closeCall_leaves ..) hcall
        exact ⟨⟨sink, hsink'.trans hsink⟩, hfiles ▸ hleft⟩
    | sink =>
        obtain ⟨hsink', hfiles⟩ := closed_onSink hsink hcall
        exact ⟨hsink', hfiles ▸ hleft⟩

end Jobs

end FileSink

namespace Host

variable {h : Host} {registry : ConnectorRegistry} {settings : JobSettings} {plan : Plan}
  {cancellation : Cancellation} {events : List JobEvent} {outcome : JobOutcome} {source : Source}
  {start : FileSink} {sink : Sink}

/-- What is published changes no file. -/
theorem files_publish (p : JobProgress) (receipt : CommitReceipt) :
    (h.publish registry plan p receipt).files = h.files := by
  unfold publish
  split <;> rfl

/-- A sink of files that has been made has not been opened. -/
theorem exists_fileSink
    (hkind : registry.sinks.get? plan.sink.kind = some ConnectorRegistry.fileSink)
    (hsink : registry.makeSink h.nextRun plan.sink.kind plan.sink.options = .ok sink) :
    ∃ start : FileSink, sink = .file start ∧ start.discards = false ∧ start.parts = 0 ∧
      start.rows = 0 := by
  obtain ⟨o, -, hmade⟩ := (Registry.make_eq_ok_iff hkind).mp hsink
  obtain ⟨f, hcreate, rfl⟩ := exists_of_map_eq_ok hmade
  obtain ⟨-, p, -, rfl⟩ := FileSink.create_eq_ok_iff.mp hcreate
  exact ⟨_, rfl, rfl, rfl, rfl⟩

/-- What a job into files comes to: whatever its outcome, it leaves what the sink has acknowledged,
and the marker if it is completed, unless the sink leaves all batches out. A completed job reports
the rows of the parts. -/
theorem PlanRun.deposits (hrun : h.PlanRun registry settings plan cancellation events outcome)
    (hsite : h.makeSite registry plan =
      .ok ⟨source, .file start, { h with nextRun := h.nextRun.next }⟩)
    (hfresh : start.discards = false) (hrows : start.rows = 0)
    (hworking : IsPath h.files.workingDirectory) :
    start.Leaves h.files (outcome.result.isOk && !start.leavesOut h.files) outcome.host.files
        (batchesTaken? events) ∧
      ∀ report, outcome.result = .ok report → ∃ stream written,
        streamRead? events = some stream ∧
        start.Deposit h.files stream.nonEmptyBatches written (!start.leavesOut h.files)
          outcome.host.files ∧
        report.progress.rowsWritten = Batch.totalSize written ∧
        report.receipt = ⟨Batch.totalSize written, some ("file://" ++ start.path)⟩ ∧
        report.progress.rowsRead = Batch.totalSize stream.batches := by
  have hreaches : (JobSite.wiring (siteKind ⟨source, .file start,
      { h with nextRun := h.nextRun.next }⟩)).Reaches (start.milestones h.files) :=
    FileSink.reaches _ hfresh hrows hworking
  have hstart : (start.milestones h.files).unopened
      ⟨source, .file start, { h with nextRun := h.nextRun.next }⟩ := ⟨rfl, .refl _⟩
  cases hresult : outcome.result with
  | error e =>
      obtain ⟨final, ⟨-, hleaves⟩, hhost⟩ :=
        hrun.abandons hsite hreaches (FileSink.abandons _ hworking) hstart hresult
      rw [hhost]
      exact ⟨hleaves, nofun⟩
  | ok report =>
      obtain ⟨-, -, hcompleted⟩ := hrun.reaches hsite hreaches hstart
      obtain ⟨final, stream, hread, -, ⟨sink, written, -, hdeposit, hcount, hreceipt⟩, hhost,
        hrowsRead⟩ := hcompleted report hresult
      have hfiles : outcome.host.files = final.host.files := by rw [hhost, files_publish]
      rw [← hfiles] at hdeposit
      obtain ⟨stream', hread', -, htaken⟩ := hrun.batchesTaken?_of_ok hresult
      cases hread.symm.trans hread'
      refine ⟨?_, ?_⟩
      · rw [htaken]
        exact ⟨written, hdeposit⟩
      · rintro _ ⟨⟩
        exact ⟨stream, written, hread, hdeposit, hcount, hcount ▸ hreceipt, hrowsRead⟩

/-- What a job leaves whose sink of files can be made, whether it is run or its source cannot be
made. -/
theorem PlanRun.leaves_files (hrun : h.PlanRun registry settings plan cancellation events outcome)
    (hkind : registry.sinks.get? plan.sink.kind = some ConnectorRegistry.fileSink)
    (hworking : IsPath h.files.workingDirectory)
    (hsink : registry.makeSink h.nextRun plan.sink.kind plan.sink.options = .ok (.file start)) :
    start.Leaves h.files (outcome.result.isOk && !start.leavesOut h.files) outcome.host.files
      (batchesTaken? events) := by
  cases hsite : h.makeSite registry plan with
  | error e =>
      cases hrun with
      | unresolved => exact .refl _
      | resolved hsite' => cases hsite.symm.trans hsite'
  | ok site =>
      obtain ⟨source, sink, -, hsink', rfl⟩ := makeSite_eq_ok_iff.mp hsite
      cases hsink.symm.trans hsink'
      obtain ⟨_, ⟨⟩, hfresh, -, hrows⟩ := exists_fileSink hkind hsink
      exact (hrun.deposits hsite hfresh hrows hworking).1

end Host

end BatchTransfer
