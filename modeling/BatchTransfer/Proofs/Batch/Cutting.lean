import BatchTransfer.Proofs.Batch.Shapes

/-!
# Cutting divides the rows

A batch is cut in rounds: while rows are left, the first of them become the next chunk
(`Cutting.round?`). Every round takes a row, so the rounds come to an end
(`Cutting.rounds_le_of_run`), and what has been cut by then are the chunks (`Cutting.run_chunks`).
They are the only division of the rows into chunks of the wanted size of which none is empty and only
the last may be smaller (`Batch.chunks_eq_iff`). The main theorem is `Batch.chunks_divide_rows`.
-/

namespace BatchTransfer

/-- How far the rows of a batch have been cut: the chunks so far, and the rows that are left. -/
structure Cutting where
  cut : List Batch
  left : List Row

namespace Cutting

variable {schema : Schema} {size : Nat}

/-- Before the first round all rows are left. -/
def start (b : Batch) : Cutting := ⟨[], b.rows⟩

/-- One round: the first rows that are left become a chunk. There is none if no row is left. -/
def round? (schema : Schema) (size : Nat) (c : Cutting) : Option Cutting :=
  if c.left.isEmpty then none
  else some ⟨c.cut ++ [⟨schema, c.left.take (max size 1)⟩], c.left.drop (max size 1)⟩

/-- Exactly that many rounds. There is no result if the rows come to an end before. -/
def run (schema : Schema) (size : Nat) : Nat → Cutting → Option Cutting
  | 0, c => some c
  | rounds + 1, c => (c.round? schema size).bind (run schema size rounds)

theorem round?_of_nil (cut : List Batch) : round? schema size ⟨cut, []⟩ = none := rfl

theorem round?_of_ne_nil {rows : List Row} (h : rows ≠ []) (cut : List Batch) :
    round? schema size ⟨cut, rows⟩ =
      some ⟨cut ++ [⟨schema, rows.take (max size 1)⟩], rows.drop (max size 1)⟩ := by
  rw [round?, if_neg]
  simpa using h

/-- A round takes a row. -/
theorem length_left_of_round {c next : Cutting} (h : c.round? schema size = some next) :
    next.left.length < c.left.length := by
  obtain ⟨cut, rows⟩ := c
  by_cases hrows : rows = []
  · rw [hrows, round?_of_nil] at h
    cases h
  · rw [round?_of_ne_nil hrows] at h
    cases h
    have hlength : 0 < rows.length := List.length_pos_iff.mpr hrows
    show (rows.drop (max size 1)).length < rows.length
    rw [List.length_drop]
    omega

/-- As every round takes a row, there are no more rounds than rows. -/
theorem rounds_le_of_run {rounds : Nat} {c last : Cutting}
    (h : run schema size rounds c = some last) : rounds + last.left.length ≤ c.left.length := by
  induction rounds generalizing c with
  | zero =>
      cases h
      exact (Nat.zero_add _).le
  | succ rounds ih =>
      obtain ⟨next, hround, hrest⟩ := Option.bind_eq_some_iff.mp h
      have hnext := length_left_of_round hround
      have hlast := ih hrest
      omega

/-- When no row is left, the chunks have been cut, one in each round. -/
theorem run_chunks (schema : Schema) (size : Nat) (cut : List Batch) (rows : List Row) :
    run schema size (Batch.chunks ⟨schema, rows⟩ size).length ⟨cut, rows⟩ =
      some ⟨cut ++ Batch.chunks ⟨schema, rows⟩ size, []⟩ := by
  generalize hlength : rows.length = n
  induction n using Nat.strong_induction_on generalizing cut rows with
  | _ n ih =>
      by_cases hrows : rows = []
      · rw [Batch.chunks_eq_nil hrows, hrows, List.append_nil]
        rfl
      · have hround : round? schema size ⟨cut, rows⟩ = _ := round?_of_ne_nil hrows cut
        have hfewer : (rows.drop (max size 1)).length < n :=
          hlength ▸ length_left_of_round hround
        rw [Batch.chunks_eq_cons hrows, List.length_cons, run, hround, Option.bind_some,
          ih _ hfewer _ _ rfl, List.append_assoc]
        rfl

end Cutting

namespace Batch

variable {b : Batch} {size : Nat} {cs : List Batch}

/-- Batches that hold the rows of a batch in order and have its schema. None is without rows, none has
more rows than wanted, and only the last may have fewer. -/
structure DividesInto (b : Batch) (size : Nat) (cs : List Batch) : Prop where
  rows_eq : cs.flatMap rows = b.rows
  schema_eq : ∀ c ∈ cs, c.schema = b.schema
  full : AreFull size cs

theorem chunks_max (b : Batch) (size : Nat) : b.chunks (max size 1) = b.chunks size := by
  have hsize : max size 1 - 1 = size - 1 := by omega
  rw [chunks, chunks, hsize]

/-- The chunks divide a batch. -/
theorem dividesInto_chunks (b : Batch) (size : Nat) :
    b.DividesInto (max size 1) (b.chunks size) where
  rows_eq := by
    rw [chunks, List.flatMap_map, List.flatMap_id']
    exact flatten_groupsOf (size - 1) b.rows
  schema_eq c hc := by
    obtain ⟨group, -, rfl⟩ := List.mem_map.mp hc
    rfl
  full := chunks_max b size ▸ areFull_chunks b (Nat.le_max_right size 1)

/-- Of a division into batches, the first holds the first rows, and the others divide what is
behind them. -/
theorem DividesInto.cons {c : Batch} (h : b.DividesInto size (c :: cs)) :
    c = ⟨b.schema, b.rows.take size⟩ ∧
      DividesInto ⟨b.schema, b.rows.drop size⟩ size cs := by
  obtain ⟨hrows, hschema, hwithin, hfull⟩ := h
  rw [List.forall_mem_cons] at hschema hwithin
  rw [List.flatMap_cons] at hrows
  have htake : b.rows.take size = c.rows ∧ b.rows.drop size = cs.flatMap rows := by
    cases cs with
    | nil =>
        rw [List.flatMap_nil, List.append_nil] at hrows
        rw [← hrows]
        exact ⟨List.take_of_length_le hwithin.1.2, List.drop_eq_nil_of_le hwithin.1.2⟩
    | cons next rest =>
        have hsize : c.rows.length = size := hfull c (by simp)
        rw [← hrows]
        exact ⟨List.take_left' hsize, List.drop_left' hsize⟩
  refine ⟨?_, htake.2.symm, hschema.2, hwithin.2, fun other hother => ?_⟩
  · rw [htake.1, ← hschema.1]
  · cases cs with
    | nil => cases hother
    | cons next rest => exact hfull other (List.mem_cons_of_mem c hother)

/-- The chunks are the only division of a batch. -/
theorem chunks_eq_iff : b.chunks size = cs ↔ b.DividesInto (max size 1) cs := by
  constructor
  · rintro rfl
    exact dividesInto_chunks b size
  · intro h
    induction cs generalizing b with
    | nil => exact chunks_eq_nil h.rows_eq.symm size
    | cons c cs ih =>
        have hrows : b.rows ≠ [] := by
          rw [← h.rows_eq, List.flatMap_cons]
          have hsome := (h.full.within c List.mem_cons_self).1
          exact List.append_ne_nil_of_left_ne_nil (List.length_pos_iff.mp hsome) _
        obtain ⟨rfl, hrest⟩ := h.cons
        rw [chunks_eq_cons hrows, ih hrest]

theorem chunks_eq_nil_iff : b.chunks size = [] ↔ b.isEmpty = true := by
  refine ⟨fun h => ?_, fun h => chunks_eq_nil (List.isEmpty_iff.mp h) size⟩
  exact List.isEmpty_iff.mpr (chunks_eq_iff.mp h).rows_eq.symm

/-- The first rows, as many as some chunks hold, are cut as they are in the whole batch. -/
theorem chunks_take_append (b : Batch) (size n : Nat) :
    chunks ⟨b.schema, b.rows.take (n * max size 1)⟩ size ++
      chunks ⟨b.schema, b.rows.drop (n * max size 1)⟩ size = b.chunks size := by
  induction n generalizing b with
  | zero =>
      rw [Nat.zero_mul, List.take_zero, List.drop_zero, chunks_eq_nil rfl, List.nil_append]
  | succ n ih =>
      by_cases hrows : b.rows = []
      · rw [hrows, List.take_nil, List.drop_nil, chunks_eq_nil rfl, chunks_eq_nil hrows,
          List.append_nil]
      · have hfirst : b.rows.take ((n + 1) * max size 1) ≠ [] := by
          simp [List.take_eq_nil_iff, hrows]
        have hsum : (n + 1) * max size 1 = max size 1 + n * max size 1 := by
          rw [Nat.succ_mul, Nat.add_comm]
        have hrest := ih ⟨b.schema, b.rows.drop (max size 1)⟩
        rw [List.drop_drop] at hrest
        rw [chunks_eq_cons hfirst, chunks_eq_cons hrows, List.cons_append, ← hrest, hsum,
          List.take_take, Nat.min_eq_left (Nat.le_add_right ..), List.drop_take,
          Nat.add_sub_cancel_left]

/-- Cutting divides the rows of a batch. It comes to an end after no more rounds than there are rows,
and what has been cut by then are the chunks. They are the only division of the rows, in order, into
batches with the same schema that have as many rows as wanted, one where none is wanted, except for
the last, which has a row at least. So there is no chunk exactly if there is no row, and a batch that
is split behind some chunks is cut as a whole. -/
theorem chunks_divide_rows (b : Batch) (size : Nat) :
    ((∀ rounds c, Cutting.run b.schema size rounds (.start b) = some c → rounds ≤ b.size) ∧
      Cutting.run b.schema size (b.chunks size).length (.start b) = some ⟨b.chunks size, []⟩) ∧
    (∀ cs, b.chunks size = cs ↔ b.DividesInto (max size 1) cs) ∧
    (b.chunks size = [] ↔ b.isEmpty = true) ∧
    ∀ n, chunks ⟨b.schema, b.rows.take (n * max size 1)⟩ size ++
      chunks ⟨b.schema, b.rows.drop (n * max size 1)⟩ size = b.chunks size := by
  refine ⟨⟨fun rounds c hrun => ?_, Cutting.run_chunks b.schema size [] b.rows⟩,
    fun cs => chunks_eq_iff, chunks_eq_nil_iff, chunks_take_append b size⟩
  exact (Nat.le_add_right ..).trans (Cutting.rounds_le_of_run hrun)

/-- Three rows. -/
def threeRows : Batch := ⟨⟨[⟨"id", .int64, false⟩]⟩, [[.int 1], [.int 2], [.int 3]]⟩

/-- Three rows are cut in two rounds, the second of which takes the one that is left. -/
theorem chunks_divide_rows_three :
    Cutting.run threeRows.schema 2 2 (.start threeRows) = some ⟨threeRows.chunks 2, []⟩ ∧
    2 ≤ threeRows.size ∧
    threeRows.DividesInto 2 [⟨threeRows.schema, [[.int 1], [.int 2]]⟩, ⟨threeRows.schema, [[.int 3]]⟩] ∧
    threeRows.chunks 2 ≠ [] := by
  obtain ⟨⟨hrounds, hrun⟩, hdivides, hnone, -⟩ := chunks_divide_rows threeRows 2
  have hchunks : threeRows.chunks 2 =
      [⟨threeRows.schema, [[.int 1], [.int 2]]⟩, ⟨threeRows.schema, [[.int 3]]⟩] := by
    simp [chunks, groupsOf, threeRows]
  have htwo : (threeRows.chunks 2).length = 2 := by rw [hchunks]; rfl
  rw [htwo] at hrun
  refine ⟨hrun, hrounds 2 _ hrun, (hdivides _).mp hchunks, fun h => ?_⟩
  cases hnone.mp h

end Batch

end BatchTransfer
