import BatchTransfer.Proofs.Batch.Types
import Mathlib.Data.List.Forall2

/-!
# What a batch made from records holds

`Batch.HoldsAll` says of a batch, without its making, that it holds given records: its columns are
the names in the records in the order of their first appearance, its rows are the records one by
one, with null where a record lacks a name, and a column is nullable where there is such a null. The
main theorem is `Batch.loses_and_invents_nothing`: batches made from records hold them, and their
records make the same batch again.
-/

namespace BatchTransfer

/-- Fields under the given names, in their order, that are the fields of a record, with null where
the record has none of that name. -/
structure Record.Completes (names : List String) (r : Record) (fields : List (String × Json)) :
    Prop where
  names_eq : fields.map Prod.fst = names
  value : ∀ field ∈ fields, field ∈ r.fields ∨ field.1 ∉ r.keys ∧ field.2 = .null

/-- The fields that a selection takes complete the record. -/
theorem Record.completes_map (names : List String) (r : Record) :
    Completes names r (names.map fun name => (name, (r.get? name).getD .null)) where
  names_eq := by
    rw [List.map_map]
    exact List.map_id names
  value := by
    intro field hfield
    obtain ⟨name, -, rfl⟩ := List.mem_map.mp hfield
    cases hvalue : r.get? name with
    | none => exact .inr ⟨get?_eq_none_iff.mp hvalue, rfl⟩
    | some value => exact .inl (get?_eq_some_iff.mp hvalue)

namespace Batch

/-- A batch that holds records: a column for each name in them, a row for each record in order. -/
structure HoldsAll (b : Batch) (records : List Record) : Prop where
  distinct : b.schema.names.Nodup
  mem_names : ∀ name, name ∈ b.schema.names ↔ ∃ r ∈ records, name ∈ r.keys
  first_seen : b.schema.names.Pairwise fun name other =>
    (records.flatMap Record.keys).idxOf name < (records.flatMap Record.keys).idxOf other
  rows : List.Forall₂ (fun r row => row.length = b.schema.size ∧
    r.Completes b.schema.names (b.schema.names.zip row)) records b.rows
  nullable : ∀ column ∈ b.schema.fields, column.nullable = true ↔
    ∃ r ∈ records, column.name ∉ r.keys ∨ (column.name, .null) ∈ r.fields

/-- Names without their repetitions keep the order of their first appearance. -/
theorem pairwise_eraseDups (names : List String) :
    names.eraseDups.Pairwise fun name other => names.idxOf name < names.idxOf other := by
  induction names using List.reverseRecOn with
  | nil => exact .nil
  | append_singleton names last ih =>
      have hkeep {name : String} (h : name ∈ names) :
          (names ++ [last]).idxOf name = names.idxOf name := List.idxOf_append_of_mem h
      have hkept : names.eraseDups.Pairwise fun name other =>
          (names ++ [last]).idxOf name < (names ++ [last]).idxOf other := by
        refine ih.imp_of_mem fun {name other} hname hother hlt => ?_
        rwa [hkeep (List.mem_eraseDups.mp hname), hkeep (List.mem_eraseDups.mp hother)]
      rw [eraseDups_append_singleton]
      split
      · exact hkept
      · rename_i hlast
        rw [List.mem_eraseDups] at hlast
        rw [List.pairwise_append]
        refine ⟨hkept, List.pairwise_singleton _ _, fun name hname other hother => ?_⟩
        rw [List.mem_eraseDups] at hname
        rw [List.mem_singleton.mp hother, hkeep hname, List.idxOf_append_of_notMem hlast]
        exact Nat.lt_add_right _ (List.idxOf_lt_length_of_mem hname)

theorem lacks_iff {name : String} {r : Record} :
    lacks name r = true ↔ name ∉ r.keys ∨ (name, .null) ∈ r.fields := by
  rw [lacks, ← Record.get?_eq_none_iff, ← Record.get?_eq_some_iff]
  cases r.get? name with
  | none => simp
  | some value => cases value <;> simp [isNull]

/-- A batch that is made from records holds them. -/
theorem holdsAll_ofRecords (records : List Record) : (ofRecords records).HoldsAll records where
  distinct := names_ofRecords records ▸ nodup_columnNames records
  mem_names name := by rw [names_ofRecords, mem_columnNames]
  first_seen := by
    rw [names_ofRecords]
    exact pairwise_eraseDups _
  rows := by
    rw [names_ofRecords]
    refine List.forall₂_map_right_iff.mpr (List.forall₂_same.mpr fun r _ => ⟨?_, ?_⟩)
    · simp [ofRecords, Schema.size]
    · rw [← List.map_prod_left_eq_zip]
      exact r.completes_map (columnNames records)
  nullable column hcolumn := by
    obtain ⟨name, -, rfl⟩ := List.mem_map.mp hcolumn
    simp only [inferField, List.any_eq_true, lacks_iff]

/-! ### Batches that are made again from their records -/

section Again

variable {names : List String} {name : String}

theorem lacks_select (h : names.Nodup) (hname : name ∈ names) (r : Record) :
    lacks name (r.select names) = lacks name r := by
  rw [lacks, lacks, Record.get?_select h r hname]
  cases r.get? name <;> rfl

/-- The nulls of a selection do not change the type of a column. -/
theorem columnType_map_select (h : names.Nodup) (hname : name ∈ names) (records : List Record) :
    columnType (records.map (Record.select names)) name = columnType records name := by
  refine le_antisymm ((isLUB_columnType _ name).2 ?_) ((isLUB_columnType _ name).2 ?_)
  · rintro type ⟨selected, hselected, value, hvalue, rfl⟩
    obtain ⟨r, hr, rfl⟩ := List.mem_map.mp hselected
    rw [← Record.get?_eq_some_iff, Record.get?_select h r hname] at hvalue
    cases hvalue
    exact of_le_columnType hr name
  · rintro type ⟨r, hr, value, hvalue, rfl⟩
    refine (isLUB_columnType _ name).1 ⟨r.select names, List.mem_map_of_mem hr, value, ?_, rfl⟩
    rw [← Record.get?_eq_some_iff] at hvalue ⊢
    rw [Record.get?_select h r hname, hvalue]
    rfl

theorem inferField_map_select (h : names.Nodup) (hname : name ∈ names) (records : List Record) :
    inferField (records.map (Record.select names)) name = inferField records name := by
  have hnullable : (records.map (Record.select names)).any (lacks name) =
      records.any (lacks name) := by
    rw [List.any_map]
    exact congrArg (List.any records) (funext fun r => lacks_select h hname r)
  rw [inferField, inferField, columnType_map_select h hname, hnullable]

end Again

/-- The records of a batch that is made from records make the same batch. -/
theorem ofRecords_toRecords_ofRecords (records : List Record) :
    ofRecords (ofRecords records).toRecords = ofRecords records := by
  rw [toRecords_ofRecords]
  have hdistinct := nodup_columnNames records
  have hnames : columnNames (records.map (Record.select (columnNames records))) =
      columnNames records := by
    by_cases hnil : records = []
    · rw [hnil]
      rfl
    · exact columnNames_map_select hdistinct hnil
  simp only [ofRecords, hnames, List.map_map]
  congr 2
  · exact List.map_congr_left fun name hname => inferField_map_select hdistinct hname records
  · refine funext fun r => List.map_congr_left fun name hname => ?_
    rw [Record.get?_select hdistinct r hname]
    rfl

/-- The records of a batch that is made from records are these with nulls for what they lack. -/
theorem forall₂_completes_ofRecords (records : List Record) :
    List.Forall₂ (fun r again => r.Completes (ofRecords records).schema.names again.fields) records
      (ofRecords records).toRecords := by
  rw [toRecords_ofRecords, names_ofRecords]
  refine List.forall₂_map_right_iff.mpr (List.forall₂_same.mpr fun r _ => ?_)
  rw [Record.fields_select (nodup_columnNames records)]
  exact r.completes_map (columnNames records)

/-- Building a batch from records loses and invents nothing. The batch holds the records: a row for
each in order, a column for each name in them in the order of first appearance, nullable where a
record has null or nothing under the name. Its records are the given ones with all columns in that
order, and they make the same batch again. -/
theorem loses_and_invents_nothing (records : List Record) :
    (ofRecords records).HoldsAll records ∧
    List.Forall₂ (fun r again => r.Completes (ofRecords records).schema.names again.fields) records
      (ofRecords records).toRecords ∧
    ofRecords (ofRecords records).toRecords = ofRecords records :=
  ⟨holdsAll_ofRecords records, forall₂_completes_ofRecords records,
    ofRecords_toRecords_ofRecords records⟩

end Batch

end BatchTransfer
