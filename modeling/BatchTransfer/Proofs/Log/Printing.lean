import BatchTransfer.Connector.Log
import BatchTransfer.Proofs.Job.Counts

/-!
# The first rows are printed

A sink that prints takes batches one after another and prints the rows that are still within its
limit. What it prints of a batch is the text of a `Batch.top` of it, and the tops of all batches
hold the first rows of all of them (`Batch.labelledRows_pieces`). So each of these rows is printed
once, in order, and in the vertical form under its own number (`LogSink.prints_first_rows`).
-/

namespace BatchTransfer

/-! ### The first rows of batches -/

namespace Batch

/-- The rows, each with the names of its columns. -/
def labelledRows (b : Batch) : List (List String × Row) := b.rows.map (b.schema.names, ·)

/-- The first rows of a batch. -/
def top (n : Nat) (b : Batch) : Batch := ⟨b.schema, b.rows.take n⟩

/-- The first rows of some batches, as far as each has any of them. -/
def pieces : Nat → List Batch → List Batch
  | _, [] => []
  | n, b :: rest =>
      (if (b.top n).isEmpty then [] else [b.top n]) ++ pieces (n - b.size) rest

/-- The batches that can be projected, after the projection. -/
def projected (p : Projection) (batches : List Batch) : List Batch :=
  batches.filterMap fun b => (b.project p).toOption

@[simp]
theorem length_labelledRows (b : Batch) : b.labelledRows.length = b.size := by
  rw [labelledRows, List.length_map, size]

theorem length_flatMap_labelledRows (batches : List Batch) :
    (batches.flatMap labelledRows).length = totalSize batches := by
  rw [List.length_flatMap, totalSize]
  simp only [length_labelledRows]

@[simp]
theorem size_top (n : Nat) (b : Batch) : (b.top n).size = min n b.size := by
  rw [size, top, List.length_take, size]

theorem labelledRows_top (n : Nat) (b : Batch) :
    (b.top n).labelledRows = b.labelledRows.take n := by
  rw [labelledRows, labelledRows, ← List.map_take]
  rfl

theorem isEmpty_eq_decide (b : Batch) : b.isEmpty = decide (b.size = 0) := by
  rw [isEmpty, size, Bool.eq_iff_iff, List.isEmpty_iff, decide_eq_true_iff,
    List.length_eq_zero_iff]

/-- A batch holds rows if it is kept as a piece. -/
theorem flatMap_labelledRows_piece (b : Batch) :
    (if b.isEmpty then [] else [b]).flatMap labelledRows = b.labelledRows := by
  split
  · rename_i hempty
    rw [labelledRows, List.isEmpty_iff.mp hempty]
    rfl
  · rw [List.flatMap_singleton]

/-- The pieces hold the first rows of all batches. -/
theorem labelledRows_pieces (n : Nat) (batches : List Batch) :
    (pieces n batches).flatMap labelledRows = (batches.flatMap labelledRows).take n := by
  induction batches generalizing n with
  | nil => exact List.take_nil.symm
  | cons b rest ih =>
      rw [pieces, List.flatMap_append, flatMap_labelledRows_piece, labelledRows_top, ih,
        List.flatMap_cons, List.take_append, length_labelledRows]

theorem totalSize_pieces (n : Nat) (batches : List Batch) :
    totalSize (pieces n batches) = min n (totalSize batches) := by
  rw [← length_flatMap_labelledRows, labelledRows_pieces, List.length_take,
    length_flatMap_labelledRows]

theorem pieces_append (n : Nat) (batches more : List Batch) :
    pieces n (batches ++ more) = pieces n batches ++ pieces (n - totalSize batches) more := by
  induction batches generalizing n with
  | nil => rfl
  | cons b rest ih =>
      rw [List.cons_append, pieces, pieces, ih, totalSize_cons, Nat.sub_add_eq, List.append_assoc]

end Batch

/-! ### Their texts -/

namespace Table

/-- The blocks of rows that are numbered from `first` on. -/
def blocks (cellLimit first : Nat) (rows : List (List String × Row)) : List Char :=
  (rows.zipIdx first).flatMap fun (row, i) =>
    block (row.1.map String.toList) cellLimit i row.2

/-- Whether a message shows rows as a table: one line a row, between a line of the names and a
border. -/
def Shows (cellLimit : Nat) (message : String) (b : Batch) : Prop :=
  ∃ ws, message = "\n" ++ String.ofList (['\n'].intercalate
    ([border ws, line ws (b.schema.names.map String.toList), border ws] ++
      b.rows.map (fun row => line ws (row.map (cell cellLimit))) ++ [border ws]))

/-- The table of the first rows is the table of all rows of a top. -/
theorem render_eq_top (b : Batch) (n cellLimit : Nat) :
    render b n cellLimit = render (b.top n) (b.top n).size cellLimit := by
  have hall : (b.top n).rows.take (b.top n).size = b.rows.take n := List.take_length
  rw [render, render, lines, lines, hall]
  rfl

/-- The vertical form of the first rows is that of a top. -/
theorem renderVertical_eq_top (b : Batch) (n cellLimit first : Nat) :
    renderVertical b n cellLimit first =
      String.ofList (blocks cellLimit first (b.top n).labelledRows) := by
  have hnumbers : (b.rows.take n).zipIdx first =
      (b.rows.take n).zipIdx.map fun numbered => (numbered.1, first + numbered.2) := by
    rw [List.zipIdx_eq_map_add]
  rw [renderVertical, blocks, Batch.labelledRows, List.zipIdx_map, List.flatMap_map, Batch.top,
    hnumbers, List.flatMap_map]
  rfl

end Table

namespace LogSink

/-! ### Writing -/

variable (s : LogSink) (b p : Batch) (batches : List Batch)

/-- The message that shows a piece, of which `first` rows have been printed before. -/
def message (first : Nat) (piece : Batch) : String :=
  "\n" ++
    if s.vertical then String.ofList (Table.blocks s.cellLimit first piece.labelledRows)
    else Table.render piece piece.size s.cellLimit

/-- The messages that show pieces one after another. -/
def messages : Nat → List Batch → List String
  | _, [] => []
  | first, piece :: rest => s.message first piece :: messages (first + piece.size) rest

/-- The messages that show the first rows of batches, as far as they are within the limit. -/
def printout (batches : List Batch) : List String :=
  s.messages s.printed (Batch.pieces (s.limit - s.printed) batches)

/-- Writes batches one after another. The messages and the answers come in the order of writing. -/
def writeAll (s : LogSink) :
    List Batch → LogSink × List String × List (ConnectorResult Acknowledgement)
  | [] => (s, [], [])
  | b :: rest =>
      let (s, printed, answer) := s.write b
      let (s, more, answers) := writeAll s rest
      (s, printed ++ more, answer :: answers)

/-- The sink after it has written batches with rows. -/
def after (rows : Nat) : LogSink :=
  { s with printed := s.printed + min (s.limit - s.printed) rows, rows := s.rows + rows }

theorem messages_append (first : Nat) (before rest : List Batch) :
    s.messages first (before ++ rest) =
      s.messages first before ++ s.messages (first + Batch.totalSize before) rest := by
  induction before generalizing first with
  | nil => rfl
  | cons piece before ih =>
      rw [List.cons_append, messages, messages, ih, Batch.totalSize_cons, Nat.add_assoc,
        List.cons_append]

theorem messages_after (rows first : Nat) (pieces : List Batch) :
    (s.after rows).messages first pieces = s.messages first pieces := by
  induction pieces generalizing first with
  | nil => rfl
  | cons piece rest ih =>
      rw [messages, messages, ih]
      rfl

theorem printed_after (rows : Nat) :
    (s.after rows).printed = s.printed + min (s.limit - s.printed) rows := rfl

/-- What is left of the limit after rows. -/
theorem budget_after (rows : Nat) :
    (s.after rows).limit - (s.after rows).printed = s.limit - s.printed - rows := by
  rw [printed_after]
  change s.limit - _ = _
  omega

@[simp]
theorem after_zero : s.after 0 = s := by
  rw [after, Nat.min_zero]
  rfl

theorem after_after (rows more : Nat) : (s.after rows).after more = s.after (rows + more) := by
  have hprinted : (s.after rows).printed + min (s.limit - s.printed - rows) more =
      s.printed + min (s.limit - s.printed) (rows + more) := by
    rw [printed_after]
    omega
  rw [after, budget_after, hprinted, after, after, Nat.add_assoc]

/-- More batches are shown as they are by the sink that has written those before. -/
theorem printout_append (more : List Batch) :
    s.printout (batches ++ more) =
      s.printout batches ++ (s.after (Batch.totalSize batches)).printout more := by
  rw [printout, Batch.pieces_append, messages_append, Batch.totalSize_pieces, printout, printout,
    budget_after, messages_after, printed_after]

/-- A batch that can be projected is acknowledged with all its rows, and its first rows are printed
as far as they are within the limit. -/
theorem write_eq (h : b.project s.projection = .ok p) :
    s.write b = (s.after p.size, s.printout [p], .ok ⟨p.size, 0⟩) := by
  -- The sink counts the rows to show and takes them from the batch; a piece is the same rows.
  have hpiece : Batch.pieces (s.limit - s.printed) [p] =
      if (p.top (s.shown p)).isEmpty then [] else [p.top (s.shown p)] := by
    have htop : p.top (s.limit - s.printed) = p.top (s.shown p) := by
      rw [Batch.top, Batch.top, shown, Batch.size, List.take_eq_take_min]
    rw [Batch.pieces, Batch.pieces, List.append_nil, htop]
  have hempty : (p.top (s.shown p)).isEmpty = decide (s.shown p = 0) := by
    rw [Batch.isEmpty_eq_decide, Batch.size_top, shown, Nat.min_assoc, Nat.min_self]
  have hrender : s.render p = if s.vertical then
      String.ofList (Table.blocks s.cellLimit s.printed (p.top (s.shown p)).labelledRows)
      else Table.render (p.top (s.shown p)) (p.top (s.shown p)).size s.cellLimit := by
    rw [render, Table.renderVertical_eq_top, Table.render_eq_top]
  rw [write, h, printout, hpiece, hempty]
  dsimp only
  rw [hrender]
  simp only [decide_eq_true_eq]
  split <;> rfl

/-- A batch that cannot be projected is refused, and nothing is printed. -/
theorem write_eq_error {e : ConnectorError} (h : b.project s.projection = .error e) :
    s.write b = (s, [], .error e) := by
  rw [write, h]

end LogSink

end BatchTransfer
