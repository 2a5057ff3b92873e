import BatchTransfer.Batch.Basic
import BatchTransfer.Connector.Lines
import BatchTransfer.Proofs.Json.Printed

/-!
# Records that are written as lines

The lines of a batch are read back as its records (`records_toJsonLines`). No line is lost or
broken on the way: the text of a record holds no line break, it does not end with a carriage
return, and it is not blank, since it stands between braces.
-/

namespace BatchTransfer

open BatchTransfer.Text

/-- The lines of a text, each behind which a line break stands, and what follows. -/
theorem splitPieces_line {line rest : List Char} (h : '\n' ∉ line) :
    splitPieces (· == '\n') (line ++ '\n' :: rest) = line :: splitPieces (· == '\n') rest :=
  splitPieces_append_cons (fun _ hc => beq_eq_false_iff_ne.mpr fun heq => h (heq ▸ hc)) rfl

namespace Lines

/-- A line break ends every line, so that nothing stands behind the last one. -/
theorem splitPieces_flatMap {lines : List (List Char)} (h : ∀ line ∈ lines, '\n' ∉ line) :
    splitPieces (· == '\n') (lines.flatMap (· ++ ['\n'])) = lines ++ [[]] := by
  induction lines with
  | nil => rfl
  | cons line lines ih =>
      rw [List.forall_mem_cons] at h
      rw [List.flatMap_cons, List.append_assoc, List.singleton_append, splitPieces_line h.1,
        ih h.2, List.cons_append]

theorem ofChars_flatMap {lines : List (List Char)} (h : ∀ line ∈ lines, '\n' ∉ line)
    (hreturn : ∀ line ∈ lines, withoutReturn line = line) :
    ofChars (lines.flatMap (· ++ ['\n'])) = lines := by
  simp only [ofChars, splitPieces_flatMap h, List.getLast?_concat, List.dropLast_concat]
  exact (List.map_congr_left hreturn).trans (List.map_id lines)

/-- The text of a record ends with a brace, not with a carriage return. -/
theorem withoutReturn_chars (r : Record) :
    withoutReturn (Json.chars r.toJson) = Json.chars r.toJson := by
  obtain ⟨inner, hchars, -⟩ := Json.exists_objectChars r.fields
  have hreverse : (Json.chars r.toJson).reverse = '}' :: (inner.reverse ++ ['{']) := by
    rw [Record.toJson, hchars, ← List.cons_append, List.reverse_append]
    simp
  rw [withoutReturn, hreverse]
  rfl

theorem isBlankLine_chars (r : Record) :
    isBlankLine (String.ofList (Json.chars r.toJson)) = false := by
  obtain ⟨inner, hchars, -⟩ := Json.exists_objectChars r.fields
  have hbrace : isBlank '{' = false := by decide
  rw [isBlankLine, String.toList_ofList, Record.toJson, hchars, List.all_cons, hbrace,
    Bool.false_and]

/-- The lines of a batch are the texts of its records. -/
theorem ofText_toJsonLines (b : Batch) :
    ofText b.toJsonLines = b.toRecords.map fun r => String.ofList (Json.chars r.toJson) := by
  have hlines : b.toRecords.flatMap Batch.recordLine =
      (b.toRecords.map fun r => Json.chars r.toJson).flatMap (· ++ ['\n']) := by
    rw [List.flatMap_map]
    rfl
  rw [ofText, Batch.toJsonLines, String.toList_ofList, hlines, ofChars_flatMap, List.map_map]
  · rfl
  · intro line hline
    obtain ⟨r, -, rfl⟩ := List.mem_map.mp hline
    exact Json.newline_not_mem_chars r.toJson
  · intro line hline
    obtain ⟨r, -, rfl⟩ := List.mem_map.mp hline
    exact withoutReturn_chars r

theorem record_of_readsBack {r : Record} (h : r.ReadsBack) :
    record (String.ofList (Json.chars r.toJson)) = .ok r := by
  rw [Record.ReadsBack, Json.readRecord?, Json.compact] at h
  obtain ⟨j, hj, hr⟩ := Option.bind_eq_some_iff.mp h
  rw [record, hj]
  dsimp only
  rw [hr]

/-- Lines that all hold a record are read whatever their numbers. -/
theorem recordsOf_of_forall {pairs : List (Nat × String)} {records : List Record}
    (h : pairs.map (fun p => record p.2) = records.map .ok) : recordsOf pairs = .ok records := by
  induction pairs generalizing records with
  | nil =>
      rw [List.map_eq_nil_iff.mp h.symm]
      rfl
  | cons p pairs ih =>
      cases records with
      | nil => cases h
      | cons r records =>
          obtain ⟨hfirst, hrest⟩ := List.cons.inj h
          have hfirst : record p.2 = .ok r := hfirst
          rw [recordsOf, hfirst]
          dsimp only
          rw [ih hrest]
          rfl

/-- The records of a batch are read back from its lines, in order and no others. -/
theorem records_toJsonLines {b : Batch} (h : ∀ r ∈ b.toRecords, r.ReadsBack) :
    records b.toJsonLines = .ok b.toRecords := by
  have hkept : numbered b.toJsonLines =
      (ofText b.toJsonLines).zipIdx.map fun entry => (entry.2 + 1, entry.1) := by
    refine List.filter_eq_self.mpr fun p hp => ?_
    obtain ⟨⟨line, i⟩, hline, rfl⟩ := List.mem_map.mp hp
    have hmem : line ∈ ofText b.toJsonLines := List.fst_mem_of_mem_zipIdx hline
    rw [ofText_toJsonLines] at hmem
    obtain ⟨r, -, rfl⟩ := List.mem_map.mp hmem
    simp [isBlankLine_chars r]
  refine recordsOf_of_forall ?_
  rw [hkept, List.map_map]
  calc ((ofText b.toJsonLines).zipIdx.map _)
      = ((ofText b.toJsonLines).zipIdx.map Prod.fst).map record := (List.map_map ..).symm
    _ = b.toRecords.map (fun r => record (String.ofList (Json.chars r.toJson))) := by
        rw [List.zipIdx_map_fst, ofText_toJsonLines, List.map_map]
        rfl
    _ = b.toRecords.map .ok := List.map_congr_left fun r hr => record_of_readsBack (h r hr)

end Lines

end BatchTransfer
