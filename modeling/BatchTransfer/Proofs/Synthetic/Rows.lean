import BatchTransfer.Connector.Generated
import BatchTransfer.Proofs.Batch.Shapes

/-!
# The rows of a supply

A supply stands for one list of rows (`Supply.records`), each made from the supply as it is left by
the rows before. A batch takes the first of them, however many it holds, and leaves the others. All
rows of a pattern are of one shape, so that the stream of a supply is the batch of all its rows, cut
into chunks (`Stream.items_synthetic`).
-/

namespace BatchTransfer

namespace Synthetic

/-! ### Rows one by one -/

namespace Supply

variable (s : Supply)

@[simp]
theorem number_afterRow (n : Nat) : (afterRow^[n] s).number = s.number + n := by
  induction n with
  | zero => rfl
  | succ n ih => rw [Function.iterate_succ_apply', afterRow, ih, Nat.add_assoc]

@[simp]
theorem pattern_afterRow (n : Nat) : (afterRow^[n] s).pattern = s.pattern := by
  induction n with
  | zero => rfl
  | succ n ih => rw [Function.iterate_succ_apply', afterRow, ih]

@[simp]
theorem remaining_afterRow (n : Nat) : (afterRow^[n] s).remaining = s.remaining - n := by
  induction n with
  | zero => rfl
  | succ n ih => rw [Function.iterate_succ_apply', afterRow, ih, Nat.sub_sub]

/-- The next `n` rows. -/
def nextRows (n : Nat) : List Record := (List.range n).map fun k => (afterRow^[k] s).row.1

/-- The rows that are left. -/
def records : List Record := s.nextRows s.remaining

@[simp]
theorem length_nextRows (n : Nat) : (s.nextRows n).length = n := by
  rw [nextRows, List.length_map, List.length_range]

@[simp]
theorem length_records : s.records.length = s.remaining := s.length_nextRows _

theorem nextRows_succ (n : Nat) : s.nextRows (n + 1) = s.row.1 :: s.afterRow.nextRows n := by
  rw [nextRows, List.range_succ_eq_map, List.map_cons, List.map_map]
  rfl

theorem nextRows_add (m n : Nat) :
    s.nextRows (m + n) = s.nextRows m ++ (afterRow^[m] s).nextRows n := by
  rw [nextRows, List.range_add, List.map_append, List.map_map, nextRows, nextRows]
  congr 1
  refine List.map_congr_left fun k _ => ?_
  rw [Function.comp_apply, Nat.add_comm, Function.iterate_add_apply]

/-- The rows that a supply yields are taken one behind the other. -/
theorem take_eq (made : List Record) (n : Nat) :
    take made n s = (made.reverse ++ s.nextRows n, afterRow^[n] s) := by
  induction n generalizing made s with
  | zero => rw [take, nextRows, List.range_zero, List.map_nil, List.append_nil]; rfl
  | succ n ih =>
      rw [take, ih, nextRows_succ, List.reverse_cons, List.append_assoc, List.singleton_append]
      rfl

theorem take_records (size : Nat) : s.records.take size = s.nextRows (min s.remaining size) := by
  rw [records, nextRows, ← List.map_take, List.take_range, Nat.min_comm, nextRows]

theorem drop_records (size : Nat) :
    s.records.drop size = (afterRow^[min s.remaining size] s).records := by
  have hsplit : s.records = s.nextRows (min s.remaining size) ++
      (afterRow^[min s.remaining size] s).records := by
    rw [records, records, remaining_afterRow, ← nextRows_add]
    congr 1
    omega
  have hall := List.take_append_drop size s.records
  rw [take_records] at hall
  exact List.append_cancel_left (hall.trans hsplit)

/-- A batch holds the first rows of a supply and leaves the others. -/
theorem nextBatch?_eq {s : Supply} (h : s.remaining ≠ 0) (size : Nat) :
    s.nextBatch? size =
      some (.ofRecords (s.records.take size), afterRow^[min s.remaining size] s) := by
  rw [nextBatch?, if_neg h, take_eq, take_records]
  rfl

end Supply

/-! ### The shape of rows -/

/-- The columns that the rows of a pattern have. -/
def Pattern.columns : Pattern → List Field
  | sequence => [⟨"id", .int64, false⟩]
  | users =>
      [⟨"id", .int64, false⟩, ⟨"first_name", .utf8, false⟩, ⟨"last_name", .utf8, false⟩,
        ⟨"email", .utf8, false⟩, ⟨"age", .int64, false⟩, ⟨"country", .utf8, false⟩]
  | orders =>
      [⟨"order_id", .utf8, false⟩, ⟨"customer_id", .int64, false⟩, ⟨"product", .utf8, false⟩,
        ⟨"quantity", .int64, false⟩, ⟨"total", .float64, false⟩, ⟨"status", .utf8, false⟩]

/-- Every row has the columns of its pattern. -/
theorem Supply.shape_row (s : Supply) : s.row.1.shape = s.pattern.columns := by
  obtain ⟨pattern, random, number, remaining⟩ := s
  have hshape (fields : List (String × Json)) (h : (fields.map Prod.fst).Nodup) :
      (Record.ofFields fields).shape =
        fields.map fun field => ⟨field.1, DataType.of field.2, Batch.isNull field.2⟩ := by
    rw [Record.shape, Record.fields_ofFields h]
  cases pattern with
  | sequence => exact hshape _ (List.nodup_singleton _)
  | users => exact hshape _ (by simp)
  | orders => exact hshape _ (by simp)

theorem Supply.shape_of_mem_records {s : Supply} {r : Record} (h : r ∈ s.records) :
    r.shape = s.pattern.columns := by
  obtain ⟨n, -, rfl⟩ := List.mem_map.mp h
  rw [shape_row, pattern_afterRow]

end Synthetic

/-! ### Streams of synthetic rows -/

open Synthetic Supply

/-- The stream of a supply is the batch of all its rows, cut into chunks that are projected one by
one. -/
theorem Stream.items_synthetic (s : Supply) (size : Nat) (p : Projection) :
    (Stream.synthetic s size p).items =
      ((Batch.ofRecords s.records).chunks size).map fun b => .ofResult (b.project p) := by
  induction hn : s.remaining using Nat.strong_induction_on generalizing s with
  | _ n ih =>
      by_cases hzero : s.remaining = 0
      · have hend : (Stream.synthetic s size p).next? = none := by
          rw [next?, Supply.nextBatch?, if_pos hzero]
        have hnil : s.records = [] := List.eq_nil_of_length_eq_zero (by simp [hzero])
        rw [items_of_next?_eq_none hend, hnil, Batch.chunks_eq_nil rfl, List.map_nil]
      · have hnext : (Stream.synthetic s size p).next? =
            some (.atOnce (.ofResult ((Batch.ofRecords (s.records.take (max size 1))).project p)),
              .synthetic (afterRow^[min s.remaining (max size 1)] s) size p) := by
          rw [next?, Supply.nextBatch?_eq hzero]
        have hless : (afterRow^[min s.remaining (max size 1)] s).remaining < n := by
          rw [Supply.remaining_afterRow]
          omega
        have hne : s.records ≠ [] := List.ne_nil_of_length_pos (by simp; omega)
        rw [items_of_next? hnext, ih _ hless _ rfl, ← Supply.drop_records,
          Batch.chunks_ofRecords hne (fun _ => Supply.shape_of_mem_records), List.map_cons]
        rfl

end BatchTransfer
