import BatchTransfer.Proofs.Synthetic.Words

/-!
# Batches of synthetic rows

What a source of synthetic rows yields does not depend on the size of its batches: cut anywhere, the
batches hold the same rows in the same order, and each row carries its number. Nothing that is drawn
or computed on the way leaves its range (`GeneratedSource.emits_same_rows`).
-/

namespace BatchTransfer

open Synthetic BatchTransfer.Decimal

/-- Whether a row carries a number: orders have it, padded with zeros, in their key. -/
def Synthetic.Pattern.Carries (pattern : Pattern) (number : Nat) (row : Record) : Prop :=
  match pattern with
  | .sequence | .users => row.get? "id" = some (.int number)
  | .orders =>
      row.get? "order_id" =
        some (.string (String.ofList ("order_".toList ++ padded 8 number)))

namespace Synthetic.Supply

/-- The next row carries its number. -/
theorem carries_row (s : Supply) : s.pattern.Carries s.number s.row.1 := by
  obtain ⟨pattern, random, number, remaining⟩ := s
  have hvalue {fields : List (String × Json)} {name : String} {value : Json}
      (hnames : (fields.map Prod.fst).Nodup) (h : (name, value) ∈ fields) :
      (Record.ofFields fields).get? name = some value := by
    rwa [Record.get?_eq_some_iff, Record.fields_ofFields hnames]
  cases pattern with
  | sequence => exact hvalue (List.nodup_singleton _) List.mem_cons_self
  | users => exact hvalue (by simp) List.mem_cons_self
  | orders => exact hvalue (by simp) List.mem_cons_self

theorem carries_of_getElem? {s : Supply} {k : Nat} {r : Record} (h : s.records[k]? = some r) :
    s.pattern.Carries (s.number + k) r := by
  rw [records, nextRows, List.getElem?_map, Option.map_eq_some_iff] at h
  obtain ⟨n, hn, rfl⟩ := h
  obtain ⟨-, rfl⟩ := List.getElem?_eq_some_iff.mp hn
  rw [List.getElem_range, ← pattern_afterRow s k, ← number_afterRow]
  exact carries_row _

/-- Rows of numbers only are made without the random number generator. -/
theorem records_of_sequence {s : Supply} (h : s.pattern = .sequence) :
    s.records = (List.range s.remaining).map fun k => sequenceRow (s.number + k) := by
  refine List.map_congr_left fun k _ => ?_
  rw [row, pattern_afterRow, h, number_afterRow]

end Synthetic.Supply

/-- Batches of any size of a source of synthetic rows hold the same rows, one for each number. They
are projected one by one, and all but the last are full. In words of 64 bits nothing on the way to
them fails, and all numbers are drawn within their ranges. -/
theorem GeneratedSource.emits_same_rows (pattern : Pattern) (seed : UInt64) (rows : Nat) :
    ∃ records : List Record, records.length = rows ∧
      (∀ k r, records[k]? = some r → pattern.Carries k r) ∧
      (pattern = .sequence → records = (List.range rows).map sequenceRow) ∧
      ∀ size, 1 ≤ size → ∃ batches : List Batch,
        (∀ p, (read ⟨.new pattern seed rows, size, p⟩).items =
          batches.map fun b => .ofResult (b.project p)) ∧
        (read ⟨.new pattern seed rows, size, .all⟩).items = batches.map .batch ∧
        batches.flatMap Batch.toRecords = records ∧ Batch.AreFull size batches ∧
        (rows < UInt64.size → size < UInt64.size → ∃ drawn,
          Generator.Yields (.ofNat size) ⟨pattern, 0, .ofNat rows⟩ (.ofSeed seed, []) batches
            drawn ∧
          ∀ x ∈ drawn, x.IsInRange) := by
  have hsupply : (Supply.new pattern seed rows).number = 0 := rfl
  refine ⟨(Supply.new pattern seed rows).records, Supply.length_records _, fun k r h => ?_,
    fun h => ?_, fun size hpos => ?_⟩
  · have hcarries := Supply.carries_of_getElem? h
    rwa [hsupply, Nat.zero_add] at hcarries
  · rw [Supply.records_of_sequence h]
    refine List.map_congr_left fun k _ => ?_
    rw [hsupply, Nat.zero_add]
  · refine ⟨(Batch.ofRecords (Supply.new pattern seed rows).records).chunks size,
      fun p => Stream.items_synthetic _ size p, Stream.items_synthetic _ size .all, ?_,
      Batch.areFull_chunks _ hpos, fun hrows hsize => ?_⟩
    · rw [Batch.flatMap_toRecords_chunks]
      exact Batch.toRecords_of_shape fun _ => Supply.shape_of_mem_records
    · have hbound : (Supply.new pattern seed rows).number +
          (Supply.new pattern seed rows).remaining < UInt64.size := by
        rwa [hsupply, Nat.zero_add]
      exact Generator.exists_yields _ hbound hpos hsize []

/-- Three numbers and five persons, in batches of two. -/
theorem GeneratedSource.emits_same_rows_samples :
    (∃ batches : List Batch,
      (read ⟨.new .sequence 7 3, 2, .all⟩).items = batches.map .batch ∧
      batches.flatMap Batch.toRecords = [sequenceRow 0, sequenceRow 1, sequenceRow 2]) ∧
    ∃ batches : List Batch,
      (read ⟨.new .users 42 5, 2, .all⟩).items = batches.map .batch ∧
      (batches.flatMap Batch.toRecords).length = 5 ∧ Batch.AreFull 2 batches ∧
      ∃ drawn, Generator.Yields 2 ⟨.users, 0, 5⟩ (.ofSeed 42, []) batches drawn ∧
        ∀ x ∈ drawn, x.IsInRange := by
  constructor
  · obtain ⟨records, -, -, hnumbers, hbatches⟩ := emits_same_rows .sequence 7 3
    obtain ⟨batches, -, hitems, hrecords, -, -⟩ := hbatches 2 (by decide)
    exact ⟨batches, hitems, hrecords.trans (hnumbers rfl)⟩
  · obtain ⟨records, hlength, -, -, hbatches⟩ := emits_same_rows .users 42 5
    obtain ⟨batches, -, hitems, hrecords, hfull, hwords⟩ := hbatches 2 (by decide)
    exact ⟨batches, hitems, hrecords ▸ hlength, hfull, hwords (by decide) (by decide)⟩

end BatchTransfer
