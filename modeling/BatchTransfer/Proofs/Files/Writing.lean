import BatchTransfer.Proofs.Files.Directories
import BatchTransfer.Proofs.Job.Counts

/-!
# What a file sink leaves in a directory

A sink that is opened on an empty directory, written to and committed leaves one part a batch and
the marker, and nothing else (`Stored.writeAll`, `Stored.commit`). The name of a part begins with
its number, so that no two parts of a job have one name (`partNameAt_inj`).
-/

namespace BatchTransfer

open BatchTransfer.Decimal
open FileTree (IsName)

namespace FileSink

variable {s : FileSink} {t t' : FileTree} {directory : FilePath} {b projected : Batch}
  {batches written : List Batch} {v : FileSink × FileTree}

/-! ### The names of parts -/

/-- The name of the part of a number. -/
def partNameAt (s : FileSink) (i : Nat) : String := { s with parts := i }.partName

/-- What follows the number in the name of a part. -/
def nameEnd (s : FileSink) : List Char := '-' :: s.run.shortChars ++ '.' :: s.format.ending.toList

theorem toList_partNameAt (s : FileSink) (i : Nat) :
    (s.partNameAt i).toList = partStart.toList ++ (padded 5 i ++ s.nameEnd) := by
  rw [partNameAt, partName, String.toList_ofList, nameEnd]
  simp only [List.append_assoc]

theorem partNameAt_inj {i j : Nat} (h : s.partNameAt i = s.partNameAt j) : i = j := by
  have hchars := congrArg String.toList h
  rw [toList_partNameAt, toList_partNameAt] at hchars
  exact padded_inj (List.append_cancel_right (List.append_cancel_left hchars))

theorem exists_partNameAt (s : FileSink) (i : Nat) :
    ∃ rest, (s.partNameAt i).toList = 'p' :: rest := by
  rw [toList_partNameAt]
  exact ⟨_, rfl⟩

/-- A short identifier holds hexadecimal digits and no other character. -/
theorem not_mem_hexDigits {c : Char} (hc : ∀ n < 16, c ≠ RunId.hexDigit n) (places n : Nat) :
    c ∉ RunId.hexDigits places n := by
  induction places generalizing n with
  | zero => exact List.not_mem_nil
  | succ places ih =>
      rw [RunId.hexDigits, List.mem_append, List.mem_singleton, not_or]
      exact ⟨ih _, hc _ (Nat.mod_lt _ (by omega))⟩

/-- Nothing but letters, digits, a dash and a point stand in the name of a part. -/
theorem not_mem_partNameAt {c : Char} (hstart : c ∉ partStart.toList)
    (hdigit : Text.isDigit c = false) (hhex : ∀ n < 16, c ≠ RunId.hexDigit n)
    (hending : ∀ format : FileFormat, c ∉ '.' :: format.ending.toList) (s : FileSink) (i : Nat) :
    c ∉ (s.partNameAt i).toList := by
  have hdash : c ≠ '-' := fun hc => hstart (hc ▸ by decide)
  rw [toList_partNameAt, nameEnd]
  simp only [List.mem_append, List.mem_cons, not_or, RunId.shortChars] at hending ⊢
  exact ⟨hstart, not_mem_padded hdigit, ⟨hdash, not_mem_hexDigits hhex _ _⟩, hending s.format⟩

theorem isName_partNameAt (s : FileSink) (i : Nat) : IsName (s.partNameAt i) := by
  obtain ⟨rest, hrest⟩ := s.exists_partNameAt i
  refine FileTree.isName_of_cons hrest (by decide) ?_
  exact not_mem_partNameAt (by decide) (by decide) (by decide)
    (fun format => by cases format <;> decide) s i

theorem partNameAt_ne_marker (s : FileSink) (i : Nat) : s.partNameAt i ≠ marker := by
  intro h
  obtain ⟨rest, hrest⟩ := s.exists_partNameAt i
  rw [h] at hrest
  cases hrest

/-- Batches with the names of the parts that are to hold them. -/
def partsOf (s : FileSink) (written : List Batch) : List (String × Batch) :=
  (written.zipIdx s.parts).map fun (b, i) => (s.partNameAt i, b)

/-- The files that hold batches. -/
def filesOf (s : FileSink) (written : List Batch) : List (String × Content) :=
  (s.partsOf written).map fun (name, b) => (name, .text (s.format.encode b))

theorem partsOf_concat (s : FileSink) (written : List Batch) (b : Batch) :
    s.partsOf (written ++ [b]) =
      s.partsOf written ++ [(s.partNameAt (s.parts + written.length), b)] := by
  rw [partsOf, List.zipIdx_append, List.map_append]
  rfl

theorem filesOf_concat (s : FileSink) (written : List Batch) (b : Batch) :
    s.filesOf (written ++ [b]) = s.filesOf written ++
      [(s.partNameAt (s.parts + written.length), .text (s.format.encode b))] := by
  rw [filesOf, partsOf_concat, List.map_append]
  rfl

theorem mem_partsOf {part : String × Batch} : part ∈ s.partsOf written ↔
    ∃ i, written[i]? = some part.2 ∧ part.1 = s.partNameAt (s.parts + i) := by
  rw [partsOf, List.mem_map]
  constructor
  · rintro ⟨⟨b, n⟩, hb, rfl⟩
    obtain ⟨hle, hb⟩ := List.mk_mem_zipIdx_iff_le_and_getElem?_sub.mp hb
    exact ⟨n - s.parts, hb, by rw [Nat.add_sub_cancel' hle]⟩
  · rintro ⟨i, hi, hname⟩
    refine ⟨(part.2, s.parts + i), ?_, Prod.ext hname.symm rfl⟩
    exact List.mk_mem_zipIdx_iff_le_and_getElem?_sub.mpr
      ⟨Nat.le_add_right _ _, by rwa [Nat.add_sub_cancel_left]⟩

theorem names_partsOf (s : FileSink) (written : List Batch) :
    (s.partsOf written).map Prod.fst = (List.range' s.parts written.length).map s.partNameAt := by
  rw [partsOf, List.map_map, ← List.zipIdx_map_snd, List.map_map]
  rfl

theorem names_filesOf (s : FileSink) (written : List Batch) :
    (s.filesOf written).map Prod.fst = (s.partsOf written).map Prod.fst := by
  rw [filesOf, List.map_map]
  rfl

theorem contents_filesOf (s : FileSink) (written : List Batch) :
    (s.filesOf written).map Prod.snd = written.map fun b => .text (s.format.encode b) := by
  have hbatches := congrArg (List.map fun b => Content.text (s.format.encode b))
    (List.zipIdx_map_fst s.parts written)
  rw [List.map_map] at hbatches
  rw [filesOf, partsOf, List.map_map, List.map_map]
  exact hbatches

/-- The name of the next part is new. -/
theorem partNameAt_not_mem (s : FileSink) (written : List Batch) :
    s.partNameAt (s.parts + written.length) ∉ (s.filesOf written).map Prod.fst := by
  rw [names_filesOf, names_partsOf, List.mem_map]
  rintro ⟨i, hi, hname⟩
  have hsame := partNameAt_inj hname
  have hlt := (List.mem_range'_1.mp hi).2
  omega

/-- No two parts have one name. -/
theorem nodup_filesOf (s : FileSink) (written : List Batch) :
    ((s.filesOf written).map Prod.fst).Nodup := by
  rw [names_filesOf, names_partsOf]
  exact List.pairwise_map.mpr
    ((List.nodup_range' ..).imp fun hne hsame => hne (partNameAt_inj hsame))

/-- No part has the name of the marker. -/
theorem marker_not_mem (s : FileSink) (written : List Batch) :
    marker ∉ (s.filesOf written).map Prod.fst := by
  rw [names_filesOf, names_partsOf, List.mem_map]
  rintro ⟨i, -, hmarker⟩
  exact s.partNameAt_ne_marker i hmarker

/-! ### Opening -/

/-- A directory that is empty is opened in every save mode, and stays as it is. -/
theorem openDirectory_of_empty (hnew : s.discards = false)
    (hcreate : t.createDirectories s.path = some (t', directory))
    (hempty : t'.HoldsExactly directory []) :
    s.openDirectory t = (({ s with directory := some directory }, t'), .ok ()) := by
  have hearlier : earlier t' directory = [] := by
    rw [earlier, hempty.filesBelow_eq_nil]
    rfl
  rw [openDirectory, hcreate]
  cases s.saveMode with
  | append => rfl
  | overwrite => simp [removeEarlier, hearlier]
  | errorIfExists => simp [hearlier]
  | ignore => simp [hearlier, hnew]

/-! ### Writing -/

/-- What a sink answers to a batch that it keeps after the projection. -/
def acknowledgement (s : FileSink) (b : Batch) : Acknowledgement :=
  ⟨b.size, (s.format.encode b).utf8ByteSize⟩

/-- A batch with rows is put where the next part stands, if nothing stands there. -/
theorem write_eq (hopen : s.directory = some directory) (hkeeps : s.discards = false)
    (hnone : t.entry? (directory ++ [s.partName]) = none) (hrows : b.isEmpty = false)
    (hproject : b.project s.projection = .ok projected) :
    s.write t b =
      (({ s with parts := s.parts + 1, rows := s.rows + projected.size },
        t.put (directory ++ [s.partName]) (.file (.text (s.format.encode projected)))),
        .ok (s.acknowledgement projected)) := by
  rw [write, hkeeps, hrows, Bool.or_self, if_neg Bool.false_ne_true, hproject]
  dsimp only
  rw [hopen]
  dsimp only
  rw [FileTree.writeAt, hnone]
  rfl

/-- Writes batches one after another. The answers come in the order of writing. -/
def writeAll (v : FileSink × FileTree) :
    List Batch → (FileSink × FileTree) × List (ConnectorResult Acknowledgement)
  | [] => (v, [])
  | b :: rest =>
      let (v, answer) := v.1.write v.2 b
      let (v, answers) := writeAll v rest
      (v, answer :: answers)

/-- What a sink that has been opened on an empty directory of a tree has stored: each batch in a
part of its own. -/
structure Stored (s : FileSink) (t : FileTree) (directory : FilePath) (written : List Batch)
    (v : FileSink × FileTree) : Prop where
  isOpen : s.directory = some directory
  keeps : s.discards = false
  sink : v.1 = { s with
    parts := s.parts + written.length
    rows := s.rows + Batch.totalSize written }
  files : v.2.HoldsExactly directory (s.filesOf written)
  directories : t.KeepsDirectories v.2

namespace Stored

theorem start (hopen : s.directory = some directory) (hkeeps : s.discards = false)
    (hempty : t.HoldsExactly directory []) : Stored s t directory [] (s, t) where
  isOpen := hopen
  keeps := hkeeps
  sink := rfl
  files := hempty
  directories := .refl t

/-- A batch with rows becomes the next part. -/
theorem write (h : Stored s t directory written v) (hrows : b.isEmpty = false)
    (hproject : b.project s.projection = .ok projected) :
    ∃ v', v.1.write v.2 b = (v', .ok (s.acknowledgement projected)) ∧
      Stored s t directory (written ++ [projected]) v' := by
  obtain ⟨sink, files⟩ := v
  obtain rfl := h.sink
  have hname := s.isName_partNameAt (s.parts + written.length)
  have hnone := h.files.entry?_eq_none hname (s.partNameAt_not_mem written)
  refine ⟨_, write_eq h.isOpen h.keeps hnone hrows hproject, h.isOpen, h.keeps, ?_, ?_, ?_⟩
  · simp [Batch.totalSize_append, Nat.add_assoc]
  · rw [filesOf_concat]
    exact h.files.put hname (s.partNameAt_not_mem written) _
  · exact h.directories.trans (.put hnone _)

/-- Batches with rows become parts one after another. -/
theorem writeAll (h : Stored s t directory written v) {projected : List Batch}
    (hrows : ∀ b ∈ batches, b.isEmpty = false)
    (hproject : batches.map (·.project s.projection) = projected.map .ok) :
    ∃ v', FileSink.writeAll v batches = (v', projected.map fun b => .ok (s.acknowledgement b)) ∧
      Stored s t directory (written ++ projected) v' := by
  induction batches generalizing written v projected with
  | nil =>
      obtain rfl := List.map_eq_nil_iff.mp hproject.symm
      exact ⟨v, rfl, by rwa [List.append_nil]⟩
  | cons b rest ih =>
      cases projected with
      | nil => cases hproject
      | cons first projected =>
          rw [List.forall_mem_cons] at hrows
          obtain ⟨hfirst, hrest⟩ := List.cons.inj hproject
          obtain ⟨v', hwrite, hstored⟩ := h.write hrows.1 hfirst
          obtain ⟨v'', hall, hstored⟩ := ih hstored hrows.2 hrest
          refine ⟨v'', ?_, ?_⟩
          · rw [FileSink.writeAll, hwrite]
            dsimp only
            rw [hall, List.map_cons]
          · rwa [List.append_assoc, List.singleton_append] at hstored

/-- The commit leaves the marker beside the parts. -/
theorem commit (h : Stored s t directory written v) :
    ∃ t', v.1.commit v.2 =
        (t', .ok ⟨s.rows + Batch.totalSize written, some ("file://" ++ s.path)⟩) ∧
      t'.HoldsExactly directory (s.filesOf written ++ [(marker, .text "")]) ∧
      t.KeepsDirectories t' := by
  obtain ⟨sink, files⟩ := v
  obtain rfl := h.sink
  have hname : IsName marker := by decide
  have hnew := s.marker_not_mem written
  have hnone := h.files.entry?_eq_none hname hnew
  refine ⟨_, ?_, h.files.put hname hnew (.text ""), h.directories.trans (.put hnone _)⟩
  rw [FileSink.commit, h.keeps, if_neg Bool.false_ne_true, h.isOpen]
  dsimp only
  rw [FileTree.writeAt, hnone]
  rfl

end Stored

/-- A sink that is opened on an empty directory, or on one that it creates, takes batches with rows
that can be projected, and leaves them in parts when it is committed. -/
theorem exists_committed (hpath : s.path ≠ "") (hkeeps : s.discards = false)
    (hcreate : t.createDirectories s.path = some (t', directory))
    (hempty : t'.HoldsExactly directory []) (hrows : ∀ b ∈ batches, b.isEmpty = false)
    (hproject : batches.map (·.project s.projection) = written.map .ok) :
    ∃ opened v final, s.openDirectory t = ((opened, t'), .ok ()) ∧
      writeAll (opened, t') batches = (v, written.map fun b => .ok (s.acknowledgement b)) ∧
      v.1.commit v.2 =
        (final, .ok ⟨s.rows + Batch.totalSize written, some ("file://" ++ s.path)⟩) ∧
      final.HoldsExactly directory (s.filesOf written ++ [(marker, .text "")]) ∧
      final.find s.path = .ok (directory, .directory) := by
  have hstart : Stored { s with directory := some directory } t' directory [] _ :=
    .start rfl hkeeps hempty
  obtain ⟨v, hwrite, hstored⟩ := hstart.writeAll hrows hproject
  obtain ⟨final, hcommit, hfiles, hdirectories⟩ := hstored.commit
  refine ⟨_, v, final, openDirectory_of_empty hkeeps hcreate hempty, hwrite, hcommit, hfiles, ?_⟩
  exact hdirectories.find (FileTree.find_of_createDirectories hcreate hpath hempty.here)

end FileSink

end BatchTransfer
