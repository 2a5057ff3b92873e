import BatchTransfer.Proofs.Batch.Types

/-!
# Records of one shape

Records of one shape have the same names in the same order, and under each name values of the same
type. The schema of a batch that is made from such records is their shape (`schema_ofRecords`), so a
batch that is made from some of them is a chunk of the batch that is made from all
(`chunks_ofRecords`).
-/

namespace BatchTransfer

/-- The names of a record with the types of its values. -/
def Record.shape (r : Record) : List Field :=
  r.fields.map fun field => ⟨field.1, DataType.of field.2, Batch.isNull field.2⟩

theorem Record.keys_of_shape {r : Record} {shape : List Field} (h : r.shape = shape) :
    r.keys = shape.map Field.name := by
  rw [← h, Record.shape, List.map_map]
  rfl

namespace Batch

variable {records : List Record} {shape : List Field}

/-! ### Chunks one by one -/

/-- The first chunk holds the first rows, and the others those behind them. -/
theorem chunks_eq_cons {b : Batch} (h : b.rows ≠ []) (size : Nat) :
    b.chunks size = ⟨b.schema, b.rows.take (max size 1)⟩ ::
      chunks ⟨b.schema, b.rows.drop (max size 1)⟩ size := by
  obtain ⟨schema, rows⟩ := b
  obtain ⟨row, rest, rfl⟩ := List.exists_cons_of_ne_nil h
  have hsize : max size 1 = (size - 1) + 1 := by omega
  rw [chunks, groupsOf, List.map_cons, hsize]
  rfl

theorem chunks_eq_nil {b : Batch} (h : b.rows = []) (size : Nat) : b.chunks size = [] := by
  rw [chunks, h, groupsOf, List.map_nil]

/-! ### Batches of records of one shape -/

theorem columnNames_of_shape (hne : records ≠ []) (h : ∀ r ∈ records, r.shape = shape) :
    columnNames records = shape.map Field.name := by
  obtain ⟨first, hfirst⟩ := List.exists_mem_of_ne_nil records hne
  have hdistinct : (shape.map Field.name).Nodup :=
    Record.keys_of_shape (h first hfirst) ▸ first.distinct
  have hselected : records.map (Record.select (shape.map Field.name)) = records := by
    refine (List.map_congr_left fun r hr => ?_).trans (List.map_id records)
    rw [← Record.keys_of_shape (h r hr)]
    exact r.select_keys
  rw [← hselected]
  exact columnNames_map_select hdistinct hne

/-- The field of a shape is that which is inferred for the values under its name. -/
theorem inferField_of_shape (hne : records ≠ []) (h : ∀ r ∈ records, r.shape = shape)
    {field : Field} (hfield : field ∈ shape) : inferField records field.name = field := by
  -- Each record has a value under the name, and it is of the field's type.
  have hvalue : ∀ r ∈ records, ∃ value, (field.name, value) ∈ r.fields ∧
      DataType.of value = field.dataType ∧ isNull value = field.nullable := by
    intro r hr
    rw [← h r hr] at hfield
    obtain ⟨⟨name, value⟩, hvalue, rfl⟩ := List.mem_map.mp hfield
    exact ⟨value, hvalue, rfl, rfl⟩
  obtain ⟨first, hfirst⟩ := List.exists_mem_of_ne_nil records hne
  have htypes : {type | ∃ r ∈ records, ∃ value, (field.name, value) ∈ r.fields ∧
      DataType.of value = type} = {field.dataType} := by
    ext type
    constructor
    · rintro ⟨r, hr, value, hmem, rfl⟩
      obtain ⟨value', hmem', htype, -⟩ := hvalue r hr
      rw [← Record.get?_eq_some_iff] at hmem hmem'
      cases hmem.symm.trans hmem'
      exact htype
    · rintro rfl
      obtain ⟨value, hmem, htype, -⟩ := hvalue first hfirst
      exact ⟨first, hfirst, value, hmem, htype⟩
  have hlacks : ∀ r ∈ records, lacks field.name r = field.nullable := by
    intro r hr
    obtain ⟨value, hmem, -, hnull⟩ := hvalue r hr
    rw [lacks, r.get?_of_mem hmem]
    exact hnull
  have htype : columnType records field.name = field.dataType := by
    have hjoin := isLUB_columnType records field.name
    rw [htypes] at hjoin
    exact hjoin.unique isLUB_singleton
  have hnullable : records.any (lacks field.name) = field.nullable := by
    rw [Bool.eq_iff_iff, List.any_eq_true]
    constructor
    · rintro ⟨r, hr, hlack⟩
      exact hlacks r hr ▸ hlack
    · exact fun hnull => ⟨first, hfirst, (hlacks first hfirst).trans hnull⟩
  rw [inferField, htype, hnullable]

/-- The schema of a batch that is made from records of one shape is their shape. -/
theorem schema_ofRecords (hne : records ≠ []) (h : ∀ r ∈ records, r.shape = shape) :
    (ofRecords records).schema = ⟨shape⟩ := by
  have hfields : (columnNames records).map (inferField records) = shape := by
    rw [columnNames_of_shape hne h, List.map_map]
    exact (List.map_congr_left fun field hfield => inferField_of_shape hne h hfield).trans
      (List.map_id shape)
  exact congrArg Schema.mk hfields

theorem rows_ofRecords (hne : records ≠ []) (h : ∀ r ∈ records, r.shape = shape) :
    (ofRecords records).rows =
      records.map fun r => (shape.map Field.name).map fun name => (r.get? name).getD .null := by
  rw [ofRecords, columnNames_of_shape hne h]

/-- The first chunk of a batch that is made from records of one shape is made from the first of
them, and the others are the chunks of the batch that is made from the rest. -/
theorem chunks_ofRecords (hne : records ≠ []) (h : ∀ r ∈ records, r.shape = shape) (size : Nat) :
    (ofRecords records).chunks size = ofRecords (records.take (max size 1)) ::
      (ofRecords (records.drop (max size 1))).chunks size := by
  have hrows : (ofRecords records).rows ≠ [] := by
    rw [rows_ofRecords hne h]
    simpa using hne
  have hpart {part : List Record} (hpart : part ≠ []) (hsub : part ⊆ records) :
      ofRecords part = ⟨(ofRecords records).schema, part.map fun r =>
        (shape.map Field.name).map fun name => (r.get? name).getD .null⟩ := by
    have hshape : ∀ r ∈ part, r.shape = shape := fun r hr => h r (hsub hr)
    rw [schema_ofRecords hne h, ← schema_ofRecords hpart hshape, ← rows_ofRecords hpart hshape]
  have htake : records.take (max size 1) ≠ [] := by
    rw [ne_eq, List.take_eq_nil_iff]
    simp [hne]
  rw [chunks_eq_cons hrows, rows_ofRecords hne h, ← List.map_take, ← List.map_drop,
    ← hpart htake (List.take_subset _ _)]
  congr 1
  by_cases hdrop : records.drop (max size 1) = []
  · rw [hdrop, chunks_eq_nil rfl, chunks_eq_nil rfl]
  · rw [← hpart hdrop (List.drop_subset _ _)]

theorem toRecords_of_shape (h : ∀ r ∈ records, r.shape = shape) :
    (ofRecords records).toRecords = records := by
  rw [toRecords_ofRecords]
  refine (List.map_congr_left fun r hr => ?_).trans (List.map_id records)
  rw [columnNames_of_shape (List.ne_nil_of_mem hr) h, ← Record.keys_of_shape (h r hr)]
  exact r.select_keys

end Batch

end BatchTransfer
