import BatchTransfer.Proofs.Batch.Records
import BatchTransfer.Proofs.Files.Lines
import BatchTransfer.Proofs.Files.Writing
import Mathlib.Data.List.Perm.Basic

/-!
# Parts are read back

`FileSink.parts_hold_batches` says what a file sink that writes lines of JSON leaves in an empty
directory: a part a batch and the marker. Every part is read back as the records of its batch, and a
source over the directory emits the records of all parts in the order of their names. It finds the
parts because their names end as those of data files do, and leaves the marker out because its name
begins with an underscore (`FileSource.emits_parts`).
-/

namespace BatchTransfer

namespace FileTree

variable {t : FileTree} {directory : FilePath} {files : List (String × Content)}
  {path name text : String} {b : Batch}

/-- The text of a file in a directory is read through any path of the directory. -/
theorem HoldsExactly.readText_joined (h : t.HoldsExactly directory files)
    (hfind : t.find path = .ok (directory, .directory)) (hfile : (name, .text text) ∈ files)
    (hname : name ≠ "..") : t.readText (FileSource.joined path name) = .ok text := by
  rw [readText, find_joined hfind (h.isName _ hfile) hname (h.holds _ hfile)]
  rfl

theorem readRecords_of_readText (htext : t.readText path = .ok b.toJsonLines)
    (hread : ∀ r ∈ b.toRecords, r.ReadsBack) : t.readRecords path = .ok b.toRecords := by
  rw [readRecords, htext]
  dsimp only
  rw [Lines.records_toJsonLines hread]

end FileTree

namespace FileSource

variable {source : FileSource} {t : FileTree} {directory : FilePath} {path name : String}
  {b : Batch} {files : List (String × Content)}

/-- Whether a source that is opened and read emits the batches, and nothing else. -/
def Emits (source : FileSource) (t : FileTree) (batches : List Batch) : Prop :=
  (source.openFiles t).2 = .ok () ∧ ((source.openFiles t).1.read t).2 = .ofBatches batches

theorem ne_of_isDataFile (h : isDataFile name = true) : name ≠ ".." := by
  rintro rfl
  exact absurd h (by decide)

/-- The batches of a file that holds the lines of a batch. -/
theorem fileItems_of_readText (hall : source.projection = .all)
    (htext : t.readText path = .ok b.toJsonLines) (hread : ∀ r ∈ b.toRecords, r.ReadsBack) :
    source.fileItems t path =
      ((Batch.ofRecords b.toRecords).chunks source.batchSize).map .batch := by
  have hbatches : source.textBatches path b.toJsonLines =
      .ok ((Batch.ofRecords b.toRecords).chunks source.batchSize) := by
    rw [textBatches, Lines.records_toJsonLines hread, hall]
    rfl
  rw [fileItems, htext]
  dsimp only
  rw [hbatches]

/-- A source over a directory reads its data files in the order of their names. -/
theorem openFiles_of_find (hfind : t.find source.path = .ok (directory, .directory)) :
    source.openFiles t =
      ({ source with
          files := ((t.fileNames directory).filter isDataFile).map (joined source.path) },
        .ok ()) := by
  rw [openFiles, inputs, hfind]

/-- What a source emits of a directory that holds the lines of batches in data files, and other
files: the records of the batches, in the order of the names of the files. -/
theorem emits_parts {parts : List (String × Batch)} {others : List (String × Content)}
    (hfind : t.find source.path = .ok (directory, .directory)) (hall : source.projection = .all)
    (hfiles : t.HoldsExactly directory
      (parts.map (fun part => (part.1, .text part.2.toJsonLines)) ++ others))
    (hdata : ∀ part ∈ parts, isDataFile part.1 = true)
    (hothers : ∀ file ∈ others, isDataFile file.1 = false)
    (hregular : ∀ part ∈ parts, part.2.IsRegular)
    (hread : ∀ part ∈ parts, ∀ r ∈ part.2.toRecords, r.ReadsBack) :
    ∃ (ordered : List (String × Batch)) (emitted : List Batch), ordered.Perm parts ∧
      ordered.Pairwise (fun p q => p.1 < q.1) ∧ source.Emits t emitted ∧
      emitted.flatMap Batch.toRecords = ordered.flatMap (fun part => part.2.toRecords) ∧
      ∀ b ∈ emitted, b.isEmpty = false ∧ b.size ≤ max 1 source.batchSize := by
  have hnames : ((t.fileNames directory).filter isDataFile).Perm (parts.map Prod.fst) := by
    have hperm := hfiles.fileNames_perm.filter isDataFile
    have hkept : (parts.map Prod.fst).filter isDataFile = parts.map Prod.fst := by
      refine List.filter_eq_self.mpr fun name hname => ?_
      obtain ⟨part, hpart, rfl⟩ := List.mem_map.mp hname
      exact hdata part hpart
    have hleft : (others.map Prod.fst).filter isDataFile = [] := by
      refine List.filter_eq_nil_iff.mpr fun name hname => ?_
      obtain ⟨file, hfile, rfl⟩ := List.mem_map.mp hname
      simp [hothers file hfile]
    rwa [List.map_append, List.filter_append, hleft, List.append_nil, List.map_map,
      show (Prod.fst ∘ fun part : String × Batch => (part.1, Content.text part.2.toJsonLines)) =
        Prod.fst from rfl, hkept] at hperm
  -- The parts follow their names, which are sorted.
  obtain ⟨ordered, hordered, hperm⟩ :=
    (congrFun₂ (List.eq_map_comp_perm fun part : String × Batch => part.1) _ _).mpr hnames
  have hsorted := hfiles.pairwise_fileNames.filter isDataFile
  rw [hordered, List.pairwise_map] at hsorted
  have hitems (part : String × Batch) (hpart : part ∈ ordered) :
      source.fileItems t (joined source.path part.1) =
        ((Batch.ofRecords part.2.toRecords).chunks source.batchSize).map .batch := by
    have hmem := hperm.mem_iff.mp hpart
    refine fileItems_of_readText hall ?_ (hread part hmem)
    exact hfiles.readText_joined hfind
      (List.mem_append_left _ (List.mem_map_of_mem hmem)) (ne_of_isDataFile (hdata part hmem))
  refine ⟨ordered, ordered.flatMap fun part =>
    (Batch.ofRecords part.2.toRecords).chunks source.batchSize, hperm, hsorted, ⟨?_, ?_⟩, ?_, ?_⟩
  · rw [openFiles_of_find hfind]
  · rw [openFiles_of_find hfind, read, Stream.ofBatches, hordered, List.map_map, List.flatMap_map,
      List.map_flatMap]
    show Stream.ofItems (ordered.flatMap fun part =>
      source.fileItems t (joined source.path part.1)) = _
    rw [List.flatMap_congr hitems]
  · rw [List.flatMap_assoc]
    refine List.flatMap_congr fun part hpart => ?_
    rw [Batch.flatMap_toRecords_chunks,
      Batch.toRecords_ofRecords_toRecords (hregular part (hperm.mem_iff.mp hpart))]
  · intro b hb
    obtain ⟨part, -, hchunk⟩ := List.mem_flatMap.mp hb
    exact ⟨Batch.isEmpty_of_mem_chunks hchunk, Batch.size_le_of_mem_chunks hchunk⟩

end FileSource

namespace FileSink

variable {s : FileSink} {t t' final : FileTree} {directory : FilePath}
  {batches written : List Batch}

theorem isDataFile_partNameAt (hformat : s.format = .json) (i : Nat) :
    FileSource.isDataFile (s.partNameAt i) = true := by
  obtain ⟨rest, hrest⟩ := s.exists_partNameAt i
  have hending : ".jsonl".toList <:+ (s.partNameAt i).toList := by
    rw [toList_partNameAt, nameEnd, hformat, ← List.append_assoc, ← List.append_assoc]
    exact List.suffix_append _ _
  rw [hrest] at hending
  rw [FileSource.isDataFile, hrest]
  exact List.any_eq_true.mpr ⟨".jsonl", by decide, List.isSuffixOf_iff_suffix.mpr hending⟩

/-- The files of a sink that writes lines of JSON. -/
theorem filesOf_json (hformat : s.format = .json) (written : List Batch) :
    s.filesOf written =
      (s.partsOf written).map fun part => (part.1, .text part.2.toJsonLines) := by
  rw [filesOf, hformat]
  rfl

/-- What a source emits of the directory that a sink has left. -/
theorem emits_partsOf {source : FileSource} (hformat : s.format = .json)
    (hfind : final.find source.path = .ok (directory, .directory))
    (hall : source.projection = .all)
    (hfiles : final.HoldsExactly directory (s.filesOf written ++ [(marker, .text "")]))
    (hregular : ∀ b ∈ written, b.IsRegular) (hread : ∀ b ∈ written, ∀ r ∈ b.toRecords, r.ReadsBack) :
    ∃ (ordered : List (String × Batch)) (emitted : List Batch),
      ordered.Perm (s.partsOf written) ∧ ordered.Pairwise (fun p q => p.1 < q.1) ∧
      source.Emits final emitted ∧
      emitted.flatMap Batch.toRecords = ordered.flatMap (fun part => part.2.toRecords) ∧
      ∀ b ∈ emitted, b.isEmpty = false ∧ b.size ≤ max 1 source.batchSize := by
  rw [filesOf_json hformat] at hfiles
  refine FileSource.emits_parts hfind hall hfiles ?_ ?_ ?_ ?_
  · intro part hpart
    obtain ⟨i, -, hname⟩ := mem_partsOf.mp hpart
    rw [hname]
    exact isDataFile_partNameAt hformat _
  · intro file hfile
    rw [List.mem_singleton.mp hfile]
    decide
  · intro part hpart
    obtain ⟨i, hi, -⟩ := mem_partsOf.mp hpart
    exact hregular _ (List.mem_of_getElem? hi)
  · intro part hpart
    obtain ⟨i, hi, -⟩ := mem_partsOf.mp hpart
    exact hread _ (List.mem_of_getElem? hi)

/-- Batches stay regular when they are projected. -/
theorem isRegular_of_projected {projection : Projection} (hregular : ∀ b ∈ batches, b.IsRegular)
    (hproject : batches.map (·.project projection) = written.map .ok) :
    ∀ b ∈ written, b.IsRegular := by
  intro b hb
  have hmem : (Except.ok b : ConnectorResult Batch) ∈ batches.map (·.project projection) :=
    hproject ▸ List.mem_map_of_mem hb
  obtain ⟨whole, hwhole, hb⟩ := List.mem_map.mp hmem
  exact Batch.isRegular_project (hregular whole hwhole) hb

/-- A sink that writes lines of JSON is opened on an empty directory, or on one that it creates. It
takes batches with rows, as the projection leaves them, and is committed. Then the directory holds
a part a batch and the marker, and nothing else. Through every path of the directory, each part is
read back as the records of its batch, and a source of all columns emits the records of the parts,
in the order of the names of the parts, in batches of at most the wanted size. -/
theorem parts_hold_batches (hformat : s.format = .json) (hpath : s.path ≠ "")
    (hkeeps : s.discards = false) (hcreate : t.createDirectories s.path = some (t', directory))
    (hempty : t'.HoldsExactly directory []) (hrows : ∀ b ∈ batches, b.isEmpty = false)
    (hregular : ∀ b ∈ batches, b.IsRegular)
    (hproject : batches.map (·.project s.projection) = written.map .ok)
    (hread : ∀ b ∈ written, ∀ r ∈ b.toRecords, r.ReadsBack) :
    ∃ opened v final, s.openDirectory t = ((opened, t'), .ok ()) ∧
      writeAll (opened, t') batches = (v, written.map fun b => .ok (s.acknowledgement b)) ∧
      v.1.commit v.2 =
        (final, .ok ⟨s.rows + Batch.totalSize written, some ("file://" ++ s.path)⟩) ∧
      final.HoldsExactly directory
        ((s.partsOf written).map (fun part => (part.1, .text part.2.toJsonLines)) ++
          [(marker, .text "")]) ∧
      final.find s.path = .ok (directory, .directory) ∧
      ∀ path, final.find path = .ok (directory, .directory) →
        (∀ part ∈ s.partsOf written,
          final.readRecords (FileSource.joined path part.1) = .ok part.2.toRecords) ∧
        ∀ source : FileSource, source.path = path → source.projection = .all →
          ∃ (ordered : List (String × Batch)) (emitted : List Batch),
            ordered.Perm (s.partsOf written) ∧ ordered.Pairwise (fun p q => p.1 < q.1) ∧
            source.Emits final emitted ∧
            emitted.flatMap Batch.toRecords = ordered.flatMap (fun part => part.2.toRecords) ∧
            ∀ b ∈ emitted, b.isEmpty = false ∧ b.size ≤ max 1 source.batchSize := by
  obtain ⟨opened, v, final, hopen, hwrite, hcommit, hfiles, hfind⟩ :=
    exists_committed hpath hkeeps hcreate hempty hrows hproject
  have hparts := hfiles
  rw [filesOf_json hformat] at hparts
  refine ⟨opened, v, final, hopen, hwrite, hcommit, hparts, hfind, fun path hfind => ⟨?_, ?_⟩⟩
  · intro part hpart
    obtain ⟨i, hi, hname⟩ := mem_partsOf.mp hpart
    have hdata : FileSource.isDataFile part.1 = true := hname ▸ isDataFile_partNameAt hformat _
    refine FileTree.readRecords_of_readText ?_ (hread _ (List.mem_of_getElem? hi))
    exact hparts.readText_joined hfind (List.mem_append_left _ (List.mem_map_of_mem hpart))
      (FileSource.ne_of_isDataFile hdata)
  · rintro source rfl hall
    exact emits_partsOf hformat hfind hall hfiles (isRegular_of_projected hregular hproject) hread

/-- A new sink of lines of JSON for all columns. -/
def plainSink (path : String) : FileSink := ⟨path, .json, .append, .all, ⟨0⟩, none, 0, 0, false⟩

/-- The tree that holds a root directory and an empty directory in it. -/
def emptyOut : FileTree := (FileTree.empty []).put ["out"] .directory

theorem createDirectories_out :
    (FileTree.empty []).createDirectories "/out" = some (emptyOut, ["out"]) := by
  rfl

theorem toRecords_oneField : (Batch.ofRecords [.oneField]).toRecords = [.oneField] := rfl

theorem toRecords_empty : (Batch.ofRecords [.empty]).toRecords = [.empty] := rfl

/-- A batch of one record, which has one field or none, is written and read back. -/
theorem readsBack_of_sample {b : Batch}
    (h : b = .ofRecords [.oneField] ∨ b = .ofRecords [.empty]) :
    b.isEmpty = false ∧ b.IsRegular ∧ ∀ r ∈ b.toRecords, r.ReadsBack := by
  rcases h with rfl | rfl
  · refine ⟨rfl, Batch.isRegular_ofRecords _, fun r hr => ?_⟩
    rw [toRecords_oneField, List.mem_singleton] at hr
    rw [hr]
    exact Record.oneField_readsBack
  · refine ⟨rfl, Batch.isRegular_ofRecords _, fun r hr => ?_⟩
    rw [toRecords_empty, List.mem_singleton] at hr
    rw [hr]
    exact Record.empty_readsBack

/-- Two batches of one record each. -/
def twoBatches : List Batch := [.ofRecords [.oneField], .ofRecords [.empty]]

theorem mem_twoBatches {b : Batch} (h : b ∈ twoBatches) :
    b = .ofRecords [.oneField] ∨ b = .ofRecords [.empty] := by
  simpa [twoBatches] using h

theorem parts_hold_batches_twoBatches :
    ∃ opened v final,
      (plainSink "/out").openDirectory (FileTree.empty []) = ((opened, emptyOut), .ok ()) ∧
      (writeAll (opened, emptyOut) twoBatches).1 = v ∧ (v.1.commit v.2).1 = final ∧
      final.readRecords "/out/part-00001-00000000.jsonl" = .ok [.empty] := by
  obtain ⟨opened, v, final, hopen, hwrite, hcommit, -, hfind, hreads⟩ :=
    parts_hold_batches (s := plainSink "/out") rfl (by decide) rfl createDirectories_out
      (FileTree.holdsExactly_created (by decide) (by decide))
      (fun _ hb => (readsBack_of_sample (mem_twoBatches hb)).1)
      (fun _ hb => (readsBack_of_sample (mem_twoBatches hb)).2.1) rfl
      (fun _ hb => (readsBack_of_sample (mem_twoBatches hb)).2.2)
  refine ⟨opened, v, final, hopen, congrArg Prod.fst hwrite, congrArg Prod.fst hcommit, ?_⟩
  have hname : FileSource.joined "/out" ((plainSink "/out").partNameAt 1) =
      "/out/part-00001-00000000.jsonl" := by decide
  have hpart : ((plainSink "/out").partNameAt 1, Batch.ofRecords [.empty]) ∈
      (plainSink "/out").partsOf twoBatches := by
    simp [partsOf, plainSink, twoBatches]
  have hrecords := (hreads "/out" hfind).1 _ hpart
  dsimp only at hrecords
  rwa [hname, toRecords_empty] at hrecords

end FileSink

end BatchTransfer
