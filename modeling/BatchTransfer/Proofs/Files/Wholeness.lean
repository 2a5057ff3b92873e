import BatchTransfer.Proofs.Batch.Columns
import BatchTransfer.Proofs.Files.Faults
import BatchTransfer.Proofs.Files.Reading
import BatchTransfer.Proofs.Job.Failures
import Mathlib.Data.List.Sort

/-!
# Files are read whole or not at all

A file of lines of JSON is read as the records of all its lines, or as an error that names the first
line that holds none. A source over a directory yields what the files hold, in the order of their
names, up to the first that is not read, and then its error; a job takes nothing behind it
(`FileSource.reads_whole_or_fails`).
-/

namespace BatchTransfer

open JobEvent (streamRead?)

/-- Whether an error about the contents of a file names the file and a line of it. Behind the number
its words end or go on with a colon. -/
def ConnectorError.NamesLine (e : ConnectorError) (path : String) (number : Nat) : Prop :=
  e.kind = .serialization ∧ ∃ rest : List Char,
    e.detail.toList = path.toList ++ ':' :: (toString number).toList ++ rest ∧
      ∀ c ∈ rest.head?, c = ':'

/-- Whether batches hold records whole and in order. All have the columns that any record names,
where a record has null if it lacks one, and all but the last are full. -/
structure Batch.CarryAll (size : Nat) (records : List Record) (batches : List Batch) : Prop where
  full : AreFull size batches
  completed : ∃ names, (∀ name, name ∈ names ↔ ∃ r ∈ records, name ∈ r.keys) ∧
    (∀ b ∈ batches, b.schema.names = names) ∧
    List.Forall₂ (fun r again => r.Completes names again.fields) records
      (batches.flatMap toRecords)

theorem Batch.carryAll_chunks (records : List Record) {size : Nat} (h : 1 ≤ size) :
    CarryAll size records ((ofRecords records).chunks size) where
  full := areFull_chunks _ h
  completed := by
    refine ⟨_, (holdsAll_ofRecords records).mem_names, fun b hb => ?_, ?_⟩
    · obtain ⟨rows, -, rfl⟩ := List.mem_map.mp hb
      rfl
    · rw [flatMap_toRecords_chunks]
      exact forall₂_completes_ofRecords records

namespace FileTree

variable {t : FileTree} {directory : FilePath} {path name text : String}

/-- The text of the file under a path. -/
def textAt? (t : FileTree) (path : FilePath) : Option String :=
  (t.content? path).bind Content.text?

/-- The text of a file in a directory is read through any path of the directory. -/
theorem readText_of_textAt? (hfind : t.find path = .ok (directory, .directory))
    (hname : IsName name) (hup : name ≠ "..") (h : t.textAt? (directory ++ [name]) = some text) :
    t.readText (FileSource.joined path name) = .ok text := by
  obtain ⟨content, hcontent, htext⟩ := Option.bind_eq_some_iff.mp h
  rw [readText, find_joined hfind hname hup (content?_eq_some_iff.mp hcontent)]
  dsimp only
  rw [htext]

end FileTree

namespace FileSource

variable {s : FileSource} {t : FileTree} {directory : FilePath} {path text name : String}

theorem namesLine_lineError (path : String) (number : Nat) (fault : Lines.LineFault) :
    (lineError path number fault).NamesLine path number := by
  cases fault with
  | notJson =>
      refine ⟨rfl, [], ?_, nofun⟩
      simp only [lineError, String.toList_append, List.append_assoc, List.append_nil]
      rfl
  | notObject j =>
      refine ⟨rfl, ": expected a JSON object, found ".toList ++ j.compact.toList, ?_, ?_⟩
      · simp only [lineError, String.toList_append, List.append_assoc]
        rfl
      · simp

/-- Whether the text of a file is read as batches of all records that its lines hold or, if any line
that is not blank holds none, as an error that names the first. -/
def ReadsWhole (s : FileSource) (path text : String) : Prop :=
  (∀ records, Lines.Holds text records → ∃ batches,
    s.textBatches path text = .ok batches ∧ Batch.CarryAll s.batchSize records batches) ∧
  ((¬ ∃ records, Lines.Holds text records) → ∃ number fault e,
    s.textBatches path text = .error e ∧ e.NamesLine path number ∧
      Lines.FirstFault text number fault)

theorem textBatches_of_holds (hall : s.projection = .all) {records : List Record}
    (h : Lines.Holds text records) (path : String) :
    s.textBatches path text = .ok ((Batch.ofRecords records).chunks s.batchSize) := by
  rw [textBatches, Lines.records_eq_ok_iff.mpr h, hall]
  rfl

theorem exists_textBatches_eq_error (s : FileSource) (path : String)
    (h : ¬ ∃ records, Lines.Holds text records) : ∃ number fault,
      s.textBatches path text = .error (lineError path number fault) ∧
        Lines.FirstFault text number fault := by
  cases hread : Lines.records text with
  | ok records => exact absurd ⟨records, Lines.records_eq_ok_iff.mp hread⟩ h
  | error found =>
      refine ⟨found.1, found.2, ?_, Lines.firstFault_of_records hread⟩
      rw [textBatches, hread]

theorem readsWhole (hall : s.projection = .all) (hsize : 1 ≤ s.batchSize) (path text : String) :
    s.ReadsWhole path text := by
  refine ⟨fun records h => ?_, fun h => ?_⟩
  · exact ⟨_, textBatches_of_holds hall h path, Batch.carryAll_chunks records hsize⟩
  · obtain ⟨number, fault, herror, hfault⟩ := s.exists_textBatches_eq_error path h
    exact ⟨number, fault, _, herror, namesLine_lineError path number fault, hfault⟩

/-! ### Directories -/

/-- Whether a data file of that name stands in a directory. -/
def HasDataFile (t : FileTree) (directory : FilePath) (name : String) : Prop :=
  isDataFile name = true ∧ FileTree.IsName name ∧
    ∃ content, t.entry? (directory ++ [name]) = some (.file content)

/-- Whether a data file holds a text that is not read as records, while all data files of a
directory whose names come before its own, in ascending order, hold records. -/
structure FirstBad (t : FileTree) (directory : FilePath) (earlier : List (String × List Record))
    (bad text : String) : Prop where
  hasFile : HasDataFile t directory bad
  text_eq : t.textAt? (directory ++ [bad]) = some text
  faulty : ¬ ∃ records, Lines.Holds text records
  sorted : (earlier.map Prod.fst).Pairwise (· < ·)
  mem_earlier : ∀ name, name ∈ earlier.map Prod.fst ↔ HasDataFile t directory name ∧ name < bad
  holds : ∀ file ∈ earlier, ∃ text, t.textAt? (directory ++ [file.1]) = some text ∧
    Lines.Holds text file.2

variable {earlier : List (String × List Record)} {bad : String}

theorem mem_dataNames (h : t.IsRegular) (hdirectory : FileTree.IsPath directory) :
    name ∈ (t.fileNames directory).filter isDataFile ↔ HasDataFile t directory name := by
  rw [List.mem_filter, h.mem_fileNames hdirectory, HasDataFile, and_comm]

theorem items_read_of_find (hfind : t.find s.path = .ok (directory, .directory)) :
    ((s.openFiles t).1.read t).2.items =
      ((t.fileNames directory).filter isDataFile).flatMap
        fun name => s.fileItems t (joined s.path name) := by
  rw [openFiles_of_find hfind, read, Stream.items_ofItems, List.flatMap_map]
  rfl

/-- The data files that are listed before the first that is not read are the earlier ones. -/
theorem FirstBad.exists_dataNames_eq (h : FirstBad t directory earlier bad text)
    (ht : t.IsRegular) (hdirectory : FileTree.IsPath directory) : ∃ later,
      (t.fileNames directory).filter isDataFile = earlier.map Prod.fst ++ bad :: later := by
  have hsorted := (ht.pairwise_fileNames directory).filter isDataFile
  obtain ⟨before, later, hsplit⟩ :=
    List.append_of_mem ((mem_dataNames ht hdirectory).mpr h.hasFile)
  rw [hsplit, List.pairwise_append, List.pairwise_cons] at hsorted
  obtain ⟨hbefore, ⟨hlater, -⟩, hless⟩ := hsorted
  refine ⟨later, ?_⟩
  rw [hsplit, hbefore.eq_of_mem_iff h.sorted fun name => ?_]
  rw [h.mem_earlier, ← mem_dataNames ht hdirectory, hsplit, List.mem_append, List.mem_cons]
  constructor
  · exact fun hname => ⟨.inl hname, hless name hname bad List.mem_cons_self⟩
  · rintro ⟨hname | rfl | hname, hlt⟩
    · exact hname
    · exact absurd hlt (lt_irrefl _)
    · exact absurd hlt (lt_asymm (hlater name hname))

/-- What a source yields of a directory up to the first file that is not read. -/
theorem FirstBad.exists_items (h : FirstBad t directory earlier bad text) (ht : t.IsRegular)
    (hfind : t.find s.path = .ok (directory, .directory)) (hall : s.projection = .all) :
    ∃ number fault rest, Lines.FirstFault text number fault ∧ (s.openFiles t).2 = .ok () ∧
      ((s.openFiles t).1.read t).2.items =
        (earlier.flatMap fun file => (Batch.ofRecords file.2).chunks s.batchSize).map .batch ++
          .failure (lineError (joined s.path bad) number fault) :: rest := by
  have hdirectory := ht.isPath_of_find hfind
  obtain ⟨later, hnames⟩ := h.exists_dataNames_eq ht hdirectory
  obtain ⟨number, fault, herror, hfault⟩ :=
    s.exists_textBatches_eq_error (joined s.path bad) h.faulty
  have hgood : ∀ file ∈ earlier, s.fileItems t (joined s.path file.1) =
      ((Batch.ofRecords file.2).chunks s.batchSize).map .batch := by
    intro file hfile
    obtain ⟨text, htext, hholds⟩ := h.holds file hfile
    obtain ⟨⟨hdata, hname, -⟩, -⟩ := (h.mem_earlier file.1).mp (List.mem_map_of_mem hfile)
    rw [fileItems, FileTree.readText_of_textAt? hfind hname (ne_of_isDataFile hdata) htext]
    dsimp only
    rw [textBatches_of_holds hall hholds]
  have hbad : s.fileItems t (joined s.path bad) =
      [.failure (lineError (joined s.path bad) number fault)] := by
    obtain ⟨hdata, hname, -⟩ := h.hasFile
    rw [fileItems, FileTree.readText_of_textAt? hfind hname (ne_of_isDataFile hdata) h.text_eq]
    dsimp only
    rw [herror]
  refine ⟨number, fault, later.flatMap fun name => s.fileItems t (joined s.path name), hfault, ?_,
    ?_⟩
  · rw [openFiles_of_find hfind]
  · rw [items_read_of_find hfind, hnames, List.flatMap_append, List.flatMap_cons, List.flatMap_map,
      List.flatMap_congr hgood, hbad, List.map_flatMap, List.singleton_append]

/-- A source of all columns reads the text of a file as batches of all records in it or as an error
that names the first line that holds none. Over a directory it yields the batches of the data files
before the first that is not read, in the order of the names, and then the error of that file, and
at no moment of any run has a job taken anything behind it. -/
theorem reads_whole_or_fails (hall : s.projection = .all) (hsize : 1 ≤ s.batchSize) :
    (∀ path text, s.ReadsWhole path text) ∧
    ∀ t directory earlier bad text, t.IsRegular → t.find s.path = .ok (directory, .directory) →
      FirstBad t directory earlier bad text → ∃ batches number fault e rest,
        List.Forall₂ (fun file => Batch.CarryAll s.batchSize file.2) earlier batches ∧
        Lines.FirstFault text number fault ∧ e.NamesLine (joined s.path bad) number ∧
        (s.openFiles t).2 = .ok () ∧
        ((s.openFiles t).1.read t).2.items = batches.flatten.map .batch ++ .failure e :: rest ∧
        ∀ (σ : Type) (w : Wiring σ) (c : JobSettings) (state : σ) (before : Bool)
          (cancelAt : Option Nat) (events : List JobEvent) (run : JobRun σ),
          JobRun.Trace w c (.start state before cancelAt) events run →
          streamRead? events = some ((s.openFiles t).1.read t).2 →
          run.taken events <+: batches.flatten.map .batch ++ [.failure e] := by
  refine ⟨readsWhole hall hsize, fun t directory earlier bad text ht hfind hfirst => ?_⟩
  obtain ⟨number, fault, rest, hfault, hopen, hitems⟩ := hfirst.exists_items ht hfind hall
  rw [List.flatMap_def] at hitems
  refine ⟨earlier.map fun file => (Batch.ofRecords file.2).chunks s.batchSize, number, fault, _,
    rest, ?_, hfault, namesLine_lineError _ number fault, hopen, hitems, ?_⟩
  · exact List.forall₂_map_right_iff.mpr
      (List.forall₂_same.mpr fun file _ => Batch.carryAll_chunks file.2 hsize)
  · intro σ w c state before cancelAt events run hrun hread
    exact hrun.taken_prefix hread hitems

/-- A directory with a file that holds one record without fields, and one whose second line is a
single bracket. -/
def goodAndBad : FileTree :=
  (FileSink.emptyOut.put ["out", "a.jsonl"]
    (.file (.text (Batch.ofRecords [.empty]).toJsonLines))).put ["out", "b.jsonl"]
    (.file (.text "\n["))

/-- A file is read as the record, and the other is not read. -/
theorem firstBad_goodAndBad :
    FirstBad goodAndBad ["out"] [("a.jsonl", [.empty])] "b.jsonl" "\n[" := by
  have hfiles : goodAndBad.HoldsExactly ["out"]
      [("a.jsonl", .text (Batch.ofRecords [.empty]).toJsonLines), ("b.jsonl", .text "\n[")] :=
    ((FileTree.holdsExactly_created (by decide) (by decide)).put
      (show FileTree.IsName "a.jsonl" by decide) (by decide) _).put
      (show FileTree.IsName "b.jsonl" by decide) (by decide) _
  have htext {name text : String}
      (h : goodAndBad.entry? (["out"] ++ [name]) = some (.file (.text text))) :
      goodAndBad.textAt? (["out"] ++ [name]) = some text := by
    rw [FileTree.textAt?, FileTree.content?, h]
    rfl
  have hgood := hfiles.holds _ List.mem_cons_self
  have hbad := hfiles.holds _ (List.mem_cons_of_mem _ List.mem_cons_self)
  refine ⟨⟨by decide, by decide, _, hbad⟩, htext hbad, ?_, List.pairwise_singleton _ _, ?_, ?_⟩
  · rintro ⟨records, hholds⟩
    have hmarks : Json.marks? ['['] = some [.openArray] := by
      rw [Json.marks?_cons (by decide) rfl, Json.marks?_nil]
      rfl
    have hread : Json.read? "[" = none := by
      rw [Json.read?, show "[".toList = ['['] from rfl, Json.readChars?, hmarks]
      rfl
    have hlines : (Lines.ofText "\n[").filter (!Lines.isBlankLine ·) = ["["] := by decide
    rw [Lines.Holds, hlines, List.forall₂_cons_left_iff] at hholds
    obtain ⟨r, _, ⟨fields, hfields, -⟩, -⟩ := hholds
    rw [hread] at hfields
    cases hfields
  · intro name
    constructor
    · intro hname
      rw [List.mem_singleton.mp hname]
      exact ⟨⟨by decide, by decide, _, hgood⟩, by decide⟩
    · rintro ⟨⟨-, hname, content, hentry⟩, hlt⟩
      have hmem : name ∈ ["a.jsonl", "b.jsonl"] := by
        by_contra hnew
        rw [hfiles.entry?_eq_none hname hnew] at hentry
        cases hentry
      rcases List.mem_cons.mp hmem with rfl | hmem
      · exact List.mem_singleton_self _
      · rw [List.mem_singleton.mp hmem] at hlt
        exact absurd hlt (lt_irrefl _)
  · intro file hfile
    rw [List.mem_singleton.mp hfile]
    refine ⟨_, htext hgood, Lines.records_eq_ok_iff.mp ?_⟩
    refine Lines.records_toJsonLines fun r hr => ?_
    rw [FileSink.toRecords_empty, List.mem_singleton] at hr
    rw [hr]
    exact Record.empty_readsBack

/-- A source of the directory. -/
def outSource : FileSource := ⟨"/out", 1, .all, []⟩

/-- A job that reads the directory. -/
def outWiring : Wiring (List Batch × Nat) :=
  { JobRun.oneBatchWiring with
    readCall := fun _ s =>
      .now s (.ok ((outSource.openFiles goodAndBad).1.read goodAndBad).2) }

/-- The record of the first file is read, and then the second line of the second file is an error,
behind which a job that has begun to read takes nothing. -/
theorem reads_whole_or_fails_goodAndBad :
    ∃ (batches : List Batch) (e : ConnectorError) (rest : List StreamItem)
      (events : List JobEvent) (run : JobRun (List Batch × Nat)), e.NamesLine "/out/b.jsonl" 2 ∧
      ((outSource.openFiles goodAndBad).1.read goodAndBad).2.items =
        batches.map .batch ++ .failure e :: rest ∧
      JobRun.Trace outWiring JobRun.oneBatchSettings (.start ([], 0) false none) events run ∧
      run.control.precedesRead = false ∧
      run.taken events <+: batches.map .batch ++ [.failure e] := by
  have htree : goodAndBad.IsRegular :=
    (((FileTree.isRegular_empty (by decide)).put (by decide) _).put (by decide) _).put
      (by decide) _
  obtain ⟨-, hdirectories⟩ := reads_whole_or_fails (s := outSource) rfl (by decide)
  obtain ⟨batches, number, fault, e, rest, -, hfault, hline, -, hitems, htaken⟩ :=
    hdirectories goodAndBad ["out"] _ _ _ htree rfl firstBad_goodAndBad
  have hread := ((((JobRun.Trace.refl (w := outWiring) (c := JobRun.oneBatchSettings)
    (.start ([], 0) false none)).step (.writer (.inl rfl) rfl)).step (.writer (.inl rfl) rfl)).step
    (.writer (.inl rfl) rfl)).step (.writer (.inl rfl) rfl)
  -- Of the two lines the first is blank.
  obtain rfl : number = 2 := by
    obtain ⟨before, line, after, hlines, rfl, -, hblank, -⟩ := hfault
    rw [show Lines.ofText "\n[" = ["", "["] by decide] at hlines
    rcases before with _ | ⟨first, _ | ⟨second, others⟩⟩
    · rw [← (List.cons.inj hlines).1] at hblank
      exact absurd hblank (by decide)
    · rfl
    · simp at hlines
  exact ⟨batches.flatten, e, rest, _, _, hline, hitems, hread, rfl,
    htaken _ _ _ _ _ _ _ _ hread rfl⟩

end FileSource

end BatchTransfer
