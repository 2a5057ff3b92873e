import BatchTransfer.Proofs.Files.Reading

/-!
# The order in which parts are read back

A source reads the parts of a directory in the order of their names. The numbers in the names are
padded to five digits, so the names have the order of writing as long as the numbers fit
(`partNameAt_lt_iff`): up to 100000 parts of one job are read back as they were written
(`reads_in_write_order`). The part behind these is read before the last of them, and so are the
records that were written last (`not_reads_in_write_order`).
-/

namespace BatchTransfer

open BatchTransfer.Decimal BatchTransfer.Text

namespace FileSink

variable {s : FileSink} {t t' final : FileTree} {directory : FilePath}
  {batches written : List Batch}

/-- The names of parts whose numbers fit the padding have the order of the numbers. -/
theorem partNameAt_lt (s : FileSink) {i j : Nat} (h : i < j) (hj : j < 100000) :
    s.partNameAt i < s.partNameAt j := by
  rw [String.lt_iff_toList_lt, toList_partNameAt, toList_partNameAt, append_lt_append_iff]
  have hlength (n : Nat) (hn : n < 100000) : (padded 5 n).length = 5 :=
    length_padded (by decide) hn
  refine append_lt_append (padded_lt_padded h hj) ?_ _ _
  rw [hlength i (h.trans hj), hlength j hj]

/-- The first number of six digits is sorted before the last one of five. -/
theorem partNameAt_overflow (s : FileSink) : s.partNameAt 100000 < s.partNameAt 99999 := by
  have hdigits : padded 5 100000 = '1' :: "00000".toList := by decide
  have hdigits' : padded 5 99999 = '9' :: "9999".toList := by decide
  rw [String.lt_iff_toList_lt, toList_partNameAt, toList_partNameAt, append_lt_append_iff, hdigits,
    hdigits', List.cons_append, List.cons_append, List.cons_lt_cons_iff]
  exact .inl (by decide)

/-- The names of the first parts have the order of their numbers if and only if there are no more
than fit the padding. -/
theorem partNameAt_lt_iff (s : FileSink) (n : Nat) :
    (∀ i j, i < j → j < n → s.partNameAt i < s.partNameAt j) ↔ n ≤ 100000 := by
  constructor
  · intro h
    by_contra hmany
    have hlast := h 99999 100000 (by omega) (by omega)
    exact lt_asymm hlast s.partNameAt_overflow
  · intro hn i j hij hj
    exact s.partNameAt_lt hij (by omega)

/-- The parts of a job that writes no more than fit the padding are sorted. -/
theorem pairwise_partsOf (hfirst : s.parts = 0) (hfew : written.length ≤ 100000) :
    (s.partsOf written).Pairwise fun p q => p.1 < q.1 := by
  rw [← List.pairwise_map (f := Prod.fst), names_partsOf, hfirst, List.pairwise_map]
  have hnumbers : (List.range' 0 written.length).Pairwise (· < ·) := List.pairwise_lt_range'
  refine hnumbers.imp_of_mem fun {i j} _ hj hij => ?_
  have hlt := (List.mem_range'_1.mp hj).2
  exact s.partNameAt_lt hij (by omega)

theorem toRecords_partsOf (s : FileSink) (written : List Batch) :
    (s.partsOf written).flatMap (fun part => part.2.toRecords) =
      written.flatMap Batch.toRecords := by
  have hbatches : (s.partsOf written).map Prod.snd = written := by
    rw [partsOf, List.map_map]
    exact List.zipIdx_map_fst ..
  rw [← List.flatMap_map, hbatches]

/-- Parts that are sorted by their names are read in the order of writing. -/
theorem emits_in_write_order {source : FileSource} (hformat : s.format = .json)
    (hfirst : s.parts = 0) (hfew : written.length ≤ 100000)
    (hfind : final.find source.path = .ok (directory, .directory))
    (hall : source.projection = .all)
    (hfiles : final.HoldsExactly directory (s.filesOf written ++ [(marker, .text "")]))
    (hregular : ∀ b ∈ written, b.IsRegular) (hread : ∀ b ∈ written, ∀ r ∈ b.toRecords, r.ReadsBack) :
    ∃ emitted, source.Emits final emitted ∧
      emitted.flatMap Batch.toRecords = written.flatMap Batch.toRecords := by
  obtain ⟨ordered, emitted, hperm, hsorted, hemits, hrecords, -⟩ :=
    emits_partsOf hformat hfind hall hfiles hregular hread
  -- The parts are sorted already, and there is one way to sort them.
  have hordered : ordered = s.partsOf written :=
    hperm.eq_of_pairwise (fun p q _ _ hpq hqp => absurd hqp (lt_asymm hpq)) hsorted
      (pairwise_partsOf hfirst hfew)
  rw [hordered, toRecords_partsOf] at hrecords
  exact ⟨emitted, hemits, hrecords⟩

/-- A job of a new sink writes batches into an empty directory. The names of its parts have the
order of writing if and only if there are at most 100000 of them. Then a source of all columns emits
the records of the batches as they were written, if these are lines of JSON. -/
theorem reads_in_write_order (hpath : s.path ≠ "") (hkeeps : s.discards = false)
    (hfirst : s.parts = 0) (hcreate : t.createDirectories s.path = some (t', directory))
    (hempty : t'.HoldsExactly directory []) (hrows : ∀ b ∈ batches, b.isEmpty = false)
    (hregular : ∀ b ∈ batches, b.IsRegular)
    (hproject : batches.map (·.project s.projection) = written.map .ok) :
    ∃ opened v final, s.openDirectory t = ((opened, t'), .ok ()) ∧
      writeAll (opened, t') batches = (v, written.map fun b => .ok (s.acknowledgement b)) ∧
      v.1.commit v.2 =
        (final, .ok ⟨s.rows + Batch.totalSize written, some ("file://" ++ s.path)⟩) ∧
      final.find s.path = .ok (directory, .directory) ∧
      ((∀ i j, i < j → j < written.length → s.partNameAt i < s.partNameAt j) ↔
        written.length ≤ 100000) ∧
      (written.length ≤ 100000 → s.format = .json →
        (∀ b ∈ written, ∀ r ∈ b.toRecords, r.ReadsBack) →
        ∀ source : FileSource, final.find source.path = .ok (directory, .directory) →
          source.projection = .all → ∃ emitted, source.Emits final emitted ∧
            emitted.flatMap Batch.toRecords = written.flatMap Batch.toRecords) := by
  obtain ⟨opened, v, final, hopen, hwrite, hcommit, hfiles, hfind⟩ :=
    exists_committed hpath hkeeps hcreate hempty hrows hproject
  refine ⟨opened, v, final, hopen, hwrite, hcommit, hfind, s.partNameAt_lt_iff _, ?_⟩
  intro hfew hformat hread source hsource hall
  exact emits_in_write_order hformat hfirst hfew hsource hall hfiles
    (isRegular_of_projected hregular hproject) hread

/-- A source of all columns over the directory of a new tree. -/
def outSource : FileSource := ⟨"/out", 1000, .all, []⟩

theorem reads_in_write_order_twoBatches :
    ∃ opened v final emitted,
      (plainSink "/out").openDirectory (FileTree.empty []) = ((opened, emptyOut), .ok ()) ∧
      (writeAll (opened, emptyOut) twoBatches).1 = v ∧ (v.1.commit v.2).1 = final ∧
      outSource.Emits final emitted ∧
      emitted.flatMap Batch.toRecords = [.oneField, .empty] := by
  obtain ⟨opened, v, final, hopen, hwrite, hcommit, hfind, -, hreads⟩ :=
    reads_in_write_order (s := plainSink "/out") (by decide) rfl rfl createDirectories_out
      (FileTree.holdsExactly_created (by decide) (by decide))
      (fun _ hb => (readsBack_of_sample (mem_twoBatches hb)).1)
      (fun _ hb => (readsBack_of_sample (mem_twoBatches hb)).2.1)
      (show twoBatches.map (·.project .all) = twoBatches.map .ok from rfl)
  obtain ⟨emitted, hemits, hrecords⟩ := hreads (by decide) rfl
    (fun _ hb => (readsBack_of_sample (mem_twoBatches hb)).2.2) outSource hfind rfl
  exact ⟨opened, v, final, emitted, hopen, congrArg Prod.fst hwrite, congrArg Prod.fst hcommit,
    hemits, hrecords⟩

/-! ### One part too many -/

/-- The part whose number does not fit the padding is not read last. -/
theorem ne_partNameAt_of_last {init : List (String × Batch)} {last : String × Batch}
    (hfirst : s.parts = 0) (hmany : 100000 < written.length)
    (hperm : (init ++ [last]).Perm (s.partsOf written))
    (hsorted : (init ++ [last]).Pairwise fun p q => p.1 < q.1) :
    last.1 ≠ s.partNameAt 100000 := by
  intro hlast
  have hbefore : (s.partNameAt 99999, written[99999]) ∈ init ++ [last] :=
    hperm.mem_iff.mpr (mem_partsOf.mpr
      ⟨99999, List.getElem?_eq_getElem _, by rw [hfirst, Nat.zero_add]⟩)
  rcases List.mem_append.mp hbefore with hmem | hmem
  · have hlt := (List.pairwise_append.mp hsorted).2.2 _ hmem last (List.mem_singleton_self last)
    rw [hlast] at hlt
    exact lt_asymm hlt s.partNameAt_overflow
  · rw [← List.mem_singleton.mp hmem] at hlast
    exact absurd (partNameAt_inj hlast) (by decide)

/-- Batches of which only the last, whose number does not fit the padding, has a record without
fields. -/
def tooMany : List Batch :=
  List.replicate 100000 (.ofRecords [.oneField]) ++ [.ofRecords [.empty]]

theorem mem_tooMany {b : Batch} (h : b ∈ tooMany) :
    b = .ofRecords [.oneField] ∨ b = .ofRecords [.empty] := by
  rcases List.mem_append.mp h with h | h
  · exact .inl (List.eq_of_mem_replicate h)
  · exact .inr (List.mem_singleton.mp h)

theorem getElem?_tooMany {i : Nat} {b : Batch} (h : tooMany[i]? = some b) (hi : i ≠ 100000) :
    b = .ofRecords [.oneField] := by
  rw [tooMany, List.getElem?_append, List.length_replicate] at h
  split at h
  · exact List.eq_of_mem_replicate (List.mem_of_getElem? h)
  · rw [List.getElem?_eq_none (by rw [List.length_singleton]; omega)] at h
    cases h

theorem not_reads_in_write_order :
    ∃ opened v final emitted,
      (plainSink "/out").partNameAt 100000 < (plainSink "/out").partNameAt 99999 ∧
      (plainSink "/out").openDirectory (FileTree.empty []) = ((opened, emptyOut), .ok ()) ∧
      writeAll (opened, emptyOut) tooMany =
        (v, tooMany.map fun b => .ok ((plainSink "/out").acknowledgement b)) ∧
      (v.1.commit v.2).1 = final ∧
      outSource.Emits final emitted ∧
      emitted.flatMap Batch.toRecords ≠ tooMany.flatMap Batch.toRecords := by
  obtain ⟨opened, v, final, hopen, hwrite, hcommit, hfiles, hfind⟩ :=
    exists_committed (s := plainSink "/out") (by decide) rfl createDirectories_out
      (FileTree.holdsExactly_created (by decide) (by decide))
      (fun _ hb => (readsBack_of_sample (mem_tooMany hb)).1)
      (show tooMany.map (·.project .all) = tooMany.map .ok from
        List.map_congr_left fun _ _ => rfl)
  have hsource : final.find outSource.path = .ok (["out"], .directory) := hfind
  obtain ⟨ordered, emitted, hperm, hsorted, hemits, hrecords, -⟩ :=
    emits_partsOf rfl hsource rfl hfiles
      (fun _ hb => (readsBack_of_sample (mem_tooMany hb)).2.1)
      (fun _ hb => (readsBack_of_sample (mem_tooMany hb)).2.2)
  refine ⟨opened, v, final, emitted, partNameAt_overflow _, hopen, hwrite,
    congrArg Prod.fst hcommit, hemits, ?_⟩
  intro hsame
  have hlength : tooMany.length = 100001 := by
    rw [tooMany, List.length_append, List.length_replicate, List.length_singleton]
  rcases List.eq_nil_or_concat' ordered with rfl | ⟨init, last, rfl⟩
  · have hnone := hperm.length_eq
    rw [partsOf, List.length_map, List.length_zipIdx, hlength] at hnone
    cases hnone
  · obtain ⟨i, hi, hname⟩ := mem_partsOf.mp (hperm.mem_iff.mp (List.mem_append_right _
      (List.mem_singleton_self last)))
    rw [show (plainSink "/out").parts + i = i from Nat.zero_add i] at hname
    have hlast : last.2 = .ofRecords [.oneField] := by
      refine getElem?_tooMany hi fun heq => ?_
      exact ne_partNameAt_of_last rfl (by omega) hperm hsorted (heq ▸ hname)
    -- The records that are read last would have to be those of the last batch.
    rw [hsame, tooMany, List.flatMap_append, List.flatMap_append, List.flatMap_singleton,
      List.flatMap_singleton, hlast, toRecords_oneField, toRecords_empty] at hrecords
    have hfields := congrArg (List.map Record.keys) (List.append_inj_right' hrecords rfl)
    exact absurd hfields (by decide)

end FileSink

end BatchTransfer
