import BatchTransfer.Connector.Source
import BatchTransfer.Proofs.Synthetic.Rows

/-!
# Chunks and projections

Sources of memory and of files project a batch and cut it into chunks; mock sources cut it and
project every chunk, and synthetic rows are projected batch by batch. As a projection looks at the
schema only, which chunks share, both ways have the same outcome, except for a batch without rows:
it has no chunk in which an unknown column would be found. The main theorem is
`Batch.projects_before_or_after_cutting`.
-/

namespace BatchTransfer

/-- What comes of reading items up to their end or the first failure: the batches or the error. -/
def StreamItem.outcome : List StreamItem → ConnectorResult (List Batch)
  | [] => .ok []
  | .batch b :: rest => (outcome rest).map (b :: ·)
  | .failure e :: _ => .error e
  | .breakdown :: _ => .error ⟨.internal, "reader task failed"⟩

/-- Whether a schema has all columns that a projection names. -/
def Schema.HasColumns (s : Schema) : Projection → Prop
  | .all => True
  | .columns names => ∀ name ∈ names, name ∈ s.names

/-- A name that no column has is a schema error. -/
theorem Schema.kind_of_select_eq_error {s : Schema} {names : List String} {e : ConnectorError}
    (h : s.select names = .error e) : e.kind = .schema := by
  induction names with
  | nil => cases h
  | cons name rest ih =>
      rw [select_cons] at h
      split at h
      · cases h
        rfl
      · exact ih (eq_error_of_map_eq_error h)

namespace Batch

variable {b projected : Batch} {p : Projection} {e : ConnectorError} {size : Nat}

/-- What comes of projecting a batch and cutting it into chunks. -/
def projectedChunks (b : Batch) (size : Nat) (p : Projection) : ConnectorResult (List Batch) :=
  (b.project p).map (·.chunks size)

/-- What comes of cutting a batch into chunks and projecting each. -/
def chunksProjected (b : Batch) (size : Nat) (p : Projection) : ConnectorResult (List Batch) :=
  StreamItem.outcome ((b.chunks size).map fun chunk => .ofResult (chunk.project p))

/-! ### Projections row by row -/

/-- A projection looks at the schema only, and changes the rows one by one. -/
theorem exists_project_eq (s : Schema) (p : Projection) :
    ∃ change : ConnectorResult (Schema × (Row → Row)), ∀ rows,
      project ⟨s, rows⟩ p = change.map fun c => ⟨c.1, rows.map c.2⟩ := by
  cases p with
  | all => exact ⟨.ok (s, id), fun rows => by simp [project, Except.map]⟩
  | columns names =>
      refine ⟨(s.select names).map fun chosen => (.ofChosen chosen, cellsOf chosen), fun rows => ?_⟩
      rw [project, Schema.project]
      cases s.select names with
      | error e => rfl
      | ok chosen =>
          simp only [Except.map, List.map_map]
          rfl

theorem exists_project_iff :
    (∃ projected, b.project p = .ok projected) ↔ b.schema.HasColumns p := by
  cases p with
  | all => exact ⟨fun _ => trivial, fun _ => ⟨b, rfl⟩⟩
  | columns names =>
      rw [Schema.HasColumns, ← Schema.exists_select_iff]
      simp only [project_columns_eq_ok_iff]
      exact ⟨fun ⟨_, chosen, h, _⟩ => ⟨chosen, h⟩, fun ⟨chosen, h⟩ => ⟨_, chosen, h, rfl⟩⟩

theorem kind_of_project_eq_error (h : b.project p = .error e) : e.kind = .schema := by
  cases p with
  | all => cases h
  | columns names =>
      exact Schema.kind_of_select_eq_error (eq_error_of_map_eq_error (eq_error_of_map_eq_error h))

/-! ### Chunks of projections -/

theorem groupsOf_map (f : Row → Row) (size : Nat) (rows : List Row) :
    groupsOf size (rows.map f) = (groupsOf size rows).map (List.map f) := by
  fun_induction groupsOf size rows with
  | case1 => rw [List.map_nil, groupsOf, List.map_nil]
  | case2 row rest ih =>
      rw [List.map_cons, groupsOf, ← List.map_take, ← List.map_drop, ih, List.map_cons,
        List.map_cons]

/-- Each chunk is projected as the batch is. -/
theorem map_project_chunks (h : b.project p = .ok projected) (size : Nat) :
    (b.chunks size).map (·.project p) = (projected.chunks size).map .ok := by
  obtain ⟨schema, rows⟩ := b
  obtain ⟨change, hchange⟩ := exists_project_eq schema p
  rw [hchange] at h
  obtain ⟨c, rfl, rfl⟩ := exists_of_map_eq_ok h
  rw [chunks, chunks, groupsOf_map, List.map_map, List.map_map, List.map_map]
  exact List.map_congr_left fun group _ => hchange group

/-- A batch that cannot be projected has no chunk that can. -/
theorem project_eq_error_of_mem_chunks (h : b.project p = .error e) {chunk : Batch}
    (hchunk : chunk ∈ b.chunks size) : chunk.project p = .error e := by
  obtain ⟨schema, rows⟩ := b
  obtain ⟨group, -, rfl⟩ := List.mem_map.mp hchunk
  obtain ⟨change, hchange⟩ := exists_project_eq schema p
  rw [hchange] at h
  rw [hchange, eq_error_of_map_eq_error h]
  rfl

theorem outcome_map_batch (batches : List Batch) :
    StreamItem.outcome (batches.map .batch) = .ok batches := by
  induction batches with
  | nil => rfl
  | cons b batches ih =>
      rw [List.map_cons, StreamItem.outcome, ih]
      rfl

theorem chunksProjected_of_project (h : b.project p = .ok projected) (size : Nat) :
    b.chunksProjected size p = .ok (projected.chunks size) := by
  have hitems : (b.chunks size).map (fun chunk => StreamItem.ofResult (chunk.project p)) =
      (projected.chunks size).map .batch := by
    have hresults := congrArg (List.map StreamItem.ofResult) (map_project_chunks h size)
    rwa [List.map_map, List.map_map] at hresults
  rw [chunksProjected, hitems, outcome_map_batch]

theorem chunksProjected_of_error (h : b.project p = .error e) (hrows : b.isEmpty = false)
    (size : Nat) : b.chunksProjected size p = .error e := by
  have hne : b.rows ≠ [] := List.isEmpty_eq_false_iff.mp hrows
  have hmem : ⟨b.schema, b.rows.take (max size 1)⟩ ∈ b.chunks size :=
    chunks_eq_cons hne size ▸ List.mem_cons_self
  have hfirst := project_eq_error_of_mem_chunks h hmem
  rw [chunksProjected, chunks_eq_cons hne, List.map_cons, hfirst]
  rfl

theorem chunksProjected_of_isEmpty (h : b.isEmpty = true) (size : Nat) (p : Projection) :
    b.chunksProjected size p = .ok [] := by
  rw [chunksProjected, chunks_eq_nil (List.isEmpty_iff.mp h)]
  rfl

/-- Whether projecting first and cutting first come to the same batches or to the same error about
the schema. -/
def CutsAlike (b : Batch) (size : Nat) (p : Projection) : Prop :=
  (∃ batches, b.projectedChunks size p = .ok batches ∧ b.chunksProjected size p = .ok batches) ∨
    ∃ e, b.projectedChunks size p = .error e ∧ b.chunksProjected size p = .error e ∧
      e.kind = .schema

theorem cutsAlike (h : b.isEmpty = false ∨ b.schema.HasColumns p) (size : Nat) :
    b.CutsAlike size p := by
  cases hproject : b.project p with
  | ok projected =>
      exact .inl ⟨projected.chunks size, by rw [projectedChunks, hproject]; rfl,
        chunksProjected_of_project hproject size⟩
  | error e =>
      have hrows : b.isEmpty = false := by
        refine h.resolve_right fun hcolumns => ?_
        obtain ⟨projected, hok⟩ := exists_project_iff.mpr hcolumns
        rw [hproject] at hok
        cases hok
      exact .inr ⟨e, by rw [projectedChunks, hproject]; rfl,
        chunksProjected_of_error hproject hrows size, kind_of_project_eq_error hproject⟩

theorem exists_projectedChunks_eq_error (h : ¬ b.schema.HasColumns p) (size : Nat) :
    ∃ e, b.projectedChunks size p = .error e ∧ e.kind = .schema := by
  cases hproject : b.project p with
  | ok projected => exact absurd (exists_project_iff.mp ⟨projected, hproject⟩) h
  | error e =>
      exact ⟨e, by rw [projectedChunks, hproject]; rfl, kind_of_project_eq_error hproject⟩

end Batch

/-! ### What sources yield -/

theorem MemorySource.outcome_read {s : MemorySource} {records : List Record}
    (h : s.snapshot = some records) :
    (s.read.2.bind fun stream => StreamItem.outcome stream.items) =
      (Batch.ofRecords records).projectedChunks s.batchSize s.projection := by
  have hread : s.read.2 = (s.batches records).map .ofBatches := by rw [read, h]
  rw [hread, batches, Batch.projectedChunks]
  cases (Batch.ofRecords records).project s.projection with
  | error e => rfl
  | ok projected =>
      simp only [Except.map, Except.bind]
      rw [Stream.items_ofBatches, Batch.outcome_map_batch]

theorem FileSource.outcome_fileItems (s : FileSource) {t : FileTree} {path text : String}
    {records : List Record} (htext : t.readText path = .ok text)
    (hrecords : Lines.records text = .ok records) :
    StreamItem.outcome (s.fileItems t path) =
      (Batch.ofRecords records).projectedChunks s.batchSize s.projection := by
  rw [fileItems, htext]
  simp only [textBatches, hrecords]
  rw [Batch.projectedChunks]
  cases (Batch.ofRecords records).project s.projection with
  | error e => rfl
  | ok projected => exact Batch.outcome_map_batch _

theorem GeneratedSource.outcome_read (s : GeneratedSource) :
    StreamItem.outcome s.read.items =
      (Batch.ofRecords s.supply.records).chunksProjected s.batchSize s.projection := by
  rw [read, Stream.items_synthetic, Batch.chunksProjected]

/-! ### Main theorem -/

/-- Projecting a batch and cutting it, as sources of memory and of files do, and cutting it and
projecting every chunk, as mock sources do and sources of synthetic rows batch by batch, have the
same outcome: the same batches or the same error about the schema. The exception is a batch that has
no row and lacks a named column: projected first it is an error, and cut first it has no chunk. -/
theorem Batch.projects_before_or_after_cutting :
    (∀ (b : Batch) (size : Nat) (p : Projection),
      (b.isEmpty = false ∨ b.schema.HasColumns p → b.CutsAlike size p) ∧
      (b.isEmpty = true → ¬ b.schema.HasColumns p →
        (∃ e, b.projectedChunks size p = .error e ∧ e.kind = .schema) ∧
        b.chunksProjected size p = .ok [])) ∧
    (∀ (s : MemorySource) (records : List Record), s.snapshot = some records →
      (s.read.2.bind fun stream => StreamItem.outcome stream.items) =
        (ofRecords records).projectedChunks s.batchSize s.projection) ∧
    (∀ (s : FileSource) (t : FileTree) (path text : String) (records : List Record),
      t.readText path = .ok text → Lines.records text = .ok records →
      StreamItem.outcome (s.fileItems t path) =
        (ofRecords records).projectedChunks s.batchSize s.projection) ∧
    (∀ s : Rehearsal.MockSource, StreamItem.outcome s.items =
      (ofRecords ((List.range s.rows).map Rehearsal.MockSource.row)).chunksProjected s.batchSize
        s.projection) ∧
    ∀ s : GeneratedSource, StreamItem.outcome s.read.items =
      (ofRecords s.supply.records).chunksProjected s.batchSize s.projection := by
  refine ⟨fun b size p => ⟨fun h => cutsAlike h size, fun hempty hcolumns => ?_⟩,
    fun _ _ => MemorySource.outcome_read, fun s _ _ _ _ => s.outcome_fileItems, fun _ => rfl,
    GeneratedSource.outcome_read⟩
  exact ⟨exists_projectedChunks_eq_error hcolumns size, chunksProjected_of_isEmpty hempty size p⟩

theorem Batch.not_hasColumns_unknown : ¬ (ofRecords []).schema.HasColumns (.columns ["x"]) := by
  intro hcolumns
  exact absurd (hcolumns "x" (List.mem_singleton_self _)) (by decide)

/-- A tree with one file, which is empty. -/
def FileSource.emptyFile : FileTree := (FileTree.empty []).put ["a.jsonl"] (.file (.text ""))

/-- A row without the named column is an error whether it is projected before or after cutting.
Without rows, nothing is left after cutting, and a table or a file is projected before. -/
theorem Batch.projects_before_or_after_cutting_unknown :
    (ofRecords [.ofFields [("id", .int 0)]]).CutsAlike 1 (.columns ["x"]) ∧
    (ofRecords []).chunksProjected 1 (.columns ["x"]) = .ok [] ∧
    ((MemorySource.read ⟨.rows [], 1, .columns ["x"], false, some []⟩).2.bind
      fun stream => StreamItem.outcome stream.items) =
        (ofRecords []).projectedChunks 1 (.columns ["x"]) ∧
    StreamItem.outcome (FileSource.fileItems ⟨"/a.jsonl", 1, .columns ["x"], []⟩
      FileSource.emptyFile "/a.jsonl") = (ofRecords []).projectedChunks 1 (.columns ["x"]) := by
  obtain ⟨hcuts, hmemory, hfile, -⟩ := projects_before_or_after_cutting
  exact ⟨(hcuts _ 1 _).1 (.inl (by decide)), ((hcuts _ 1 _).2 rfl not_hasColumns_unknown).2,
    hmemory _ _ rfl, hfile _ _ _ "" [] rfl rfl⟩

/-- Without rows an unknown column is an error before cutting, and none after it. -/
theorem Batch.no_rows_cut_first :
    (∃ e, (ofRecords []).projectedChunks 1 (.columns ["x"]) = .error e) ∧
    (ofRecords []).chunksProjected 1 (.columns ["x"]) = .ok [] := by
  obtain ⟨e, he, -⟩ := exists_projectedChunks_eq_error not_hasColumns_unknown 1
  exact ⟨⟨e, he⟩, chunksProjected_of_isEmpty rfl 1 _⟩

end BatchTransfer
