import BatchTransfer.Batch.Table
import BatchTransfer.Text.Pieces
import Mathlib

/-!
# The lines of a table are equally long

The cells of a table are measured before they are written: one pass over all of them finds how wide
each column is (`Table.measured?`), and another one writes every cell flush right in its column. The
first pass meets no cell outside of the columns, and the lines that the second one writes all have
the length that the widths give (`Table.render_rectangular`).
-/

namespace BatchTransfer.Table

open BatchTransfer.Text

/-- The cells of the first rows, as they are shown. -/
def shownRows (b : Batch) (limit cellLimit : Nat) : List (List (List Char)) :=
  (b.rows.take limit).map fun row => row.map (cell cellLimit)

/-- The names of the columns, as they are shown. -/
def shownNames (b : Batch) : List (List Char) := b.schema.names.map String.toList

/-- The widths of the columns. -/
def shownWidths (b : Batch) (limit cellLimit : Nat) : List Nat :=
  widths (shownNames b) (shownRows b limit cellLimit)

/-- The lengths below which the width of the column `i` must not be: those of its name and of its
cells, and three. -/
def columnLengths (b : Batch) (limit cellLimit i : Nat) : Set Nat :=
  {n | n = 3 ∨ (∃ name, b.schema.names[i]? = some name ∧ n = name.length) ∨
    ∃ row ∈ shownRows b limit cellLimit, ∃ cs, row[i]? = some cs ∧ n = cs.length}

/-! ### Measuring -/

/-- The widths after a row is measured from the column `i` on: a column grows to the length of its
cell. There is none if a cell stands outside of the columns. -/
def widen? (i : Nat) (widths : List Nat) : List (List Char) → Option (List Nat)
  | [] => some widths
  | cs :: row =>
      if h : i < widths.length then
        widen? (i + 1) (widths.set i (max widths[i] cs.length)) row
      else none

/-- The widths of the columns, measured row by row. Before the first row, a column is as wide as its
name, and at least three. -/
def measured? (header : List (List Char)) (rows : List (List (List Char))) : Option (List Nat) :=
  rows.foldlM (widen? 0) (header.map fun name => max name.length 3)

variable {header : List (List Char)} {rows : List (List (List Char))} {row : List (List Char)}

/-- A row with a cell for every column that is left is measured to its end. -/
theorem widen?_append (done widths : List Nat) (h : row.length = widths.length) :
    widen? done.length (done ++ widths) row =
      some (done ++ List.zipWith max widths (row.map List.length)) := by
  induction row generalizing done widths with
  | nil =>
      obtain rfl := List.length_eq_zero_iff.mp h.symm
      rfl
  | cons cs row ih =>
      cases widths with
      | nil => cases h
      | cons w widths =>
          have hindex : done.length < (done ++ w :: widths).length := by simp
          have hset : (done ++ w :: widths).set done.length (max w cs.length) =
              (done ++ [max w cs.length]) ++ widths := by simp
          have hnext := ih (done ++ [max w cs.length]) widths (Nat.succ.inj h)
          rw [List.length_append, List.length_singleton] at hnext
          rw [widen?, dif_pos hindex, List.getElem_append_right (Nat.le_refl _)]
          simp only [Nat.sub_self, List.getElem_cons_zero]
          rw [hset, hnext]
          simp

theorem length_widths (header : List (List Char)) (rows : List (List (List Char))) :
    (widths header rows).length = header.length := by
  simp [widths]

theorem getElem_widths {i : Nat} (h : i < header.length)
    (hi : i < (widths header rows).length) :
    (widths header rows)[i] = width (header[i] :: rows.map fun row => row.getD i []) := by
  simp [widths]

theorem width_concat (texts : List (List Char)) (cs : List Char) :
    width (texts ++ [cs]) = max (width texts) cs.length := by
  simp [width]

/-- One more row widens the columns to its cells. -/
theorem widths_concat (h : row.length = header.length) :
    widths header (rows ++ [row]) =
      List.zipWith max (widths header rows) (row.map List.length) := by
  refine List.ext_getElem (by simp [length_widths, h]) fun i hi _ => ?_
  have hheader : i < header.length := length_widths header _ ▸ hi
  rw [getElem_widths hheader, List.map_append, ← List.cons_append, List.map_singleton,
    width_concat, List.getElem_zipWith, getElem_widths hheader, List.getElem_map,
    List.getD_eq_getElem row [] (h ▸ hheader)]

/-- The widths are those that are measured, and no cell stands outside of the columns. -/
theorem measured?_eq (h : ∀ row ∈ rows, row.length = header.length) :
    measured? header rows = some (widths header rows) := by
  induction rows using List.reverseRecOn with
  | nil =>
      have hnames : widths header [] = header.map fun name => max name.length 3 := by
        refine List.ext_getElem (by simp [length_widths]) fun i _ _ => ?_
        simp [widths, width, Nat.max_comm]
      rw [hnames]
      rfl
  | append_singleton rows row ih =>
      have hrow : row.length = header.length := h row (by simp)
      have hrows := ih fun row hrow => h row (List.mem_append_left _ hrow)
      have hlength : row.length = (widths header rows).length := by rw [length_widths, hrow]
      rw [measured?] at hrows
      rw [measured?, List.foldlM_append, hrows, widths_concat hrow]
      have hwiden := widen?_append [] (widths header rows) hlength
      simpa using hwiden

/-- The width of a column is the greatest of the lengths of its texts and three. -/
theorem isGreatest_width (texts : List (List Char)) :
    IsGreatest {n | n = 3 ∨ ∃ cs ∈ texts, n = cs.length} (width texts) := by
  induction texts using List.reverseRecOn with
  | nil =>
      refine ⟨.inl rfl, ?_⟩
      rintro n (rfl | ⟨cs, hcs, -⟩)
      · exact Nat.le_refl 3
      · cases hcs
  | append_singleton texts cs ih =>
      obtain ⟨hwidth, hgreatest⟩ := ih
      rw [width_concat]
      constructor
      · rcases max_choice (width texts) cs.length with hmax | hmax
        · rw [hmax]
          exact hwidth.imp id fun ⟨cs, hcs, hlength⟩ => ⟨cs, List.mem_append_left _ hcs, hlength⟩
        · exact .inr ⟨cs, by simp, hmax⟩
      · rintro n (rfl | ⟨other, hother, rfl⟩)
        · exact le_max_of_le_left (hgreatest (.inl rfl))
        · rcases List.mem_append.mp hother with hother | hother
          · exact le_max_of_le_left (hgreatest (.inr ⟨other, hother, rfl⟩))
          · rw [List.mem_singleton.mp hother]
            exact le_max_right _ _

/-! ### Lines -/

/-- A text that fits into a column fills it, with the border behind it. -/
theorem length_alignedRight {width : Nat} {cs : List Char} (h : cs.length ≤ width) :
    (alignedRight width cs).length = width + 1 := by
  simp [alignedRight, blanks]
  omega

theorem length_border (widths : List Nat) :
    (border widths).length = 1 + (widths.map (· + 1)).sum := by
  simp [border, List.length_flatMap, Nat.add_comm]

/-- Cells that fit into their columns fill a line. -/
theorem length_line {widths : List Nat} (h : List.Forall₂ (fun cs w => cs.length ≤ w) row widths) :
    (line widths row).length = 1 + (widths.map (· + 1)).sum := by
  induction h with
  | nil => rfl
  | cons hfits _ ih =>
      simp only [line, List.length_cons, List.zip_cons_cons, List.flatMap_cons, List.length_append,
        length_alignedRight hfits, List.map_cons, List.sum_cons] at ih ⊢
      omega

/-- The names of the columns fit into the columns. -/
theorem header_fits (header : List (List Char)) (rows : List (List (List Char))) :
    List.Forall₂ (fun cs w => cs.length ≤ w) header (widths header rows) := by
  refine List.forall₂_iff_get.mpr ⟨(length_widths header rows).symm, fun i hheader hi => ?_⟩
  rw [List.get_eq_getElem, List.get_eq_getElem, getElem_widths hheader]
  exact (isGreatest_width _).2 (.inr ⟨_, List.mem_cons_self, rfl⟩)

/-- A row of which the columns are as wide as its cells fits into them. -/
theorem row_fits (hmem : row ∈ rows) (h : row.length = header.length) :
    List.Forall₂ (fun cs w => cs.length ≤ w) row (widths header rows) := by
  refine List.forall₂_iff_get.mpr ⟨h.trans (length_widths header rows).symm, fun i hrow hi => ?_⟩
  rw [List.get_eq_getElem, List.get_eq_getElem, getElem_widths (h ▸ hrow)]
  refine (isGreatest_width _).2 (.inr ⟨row[i], ?_, rfl⟩)
  exact List.mem_cons_of_mem _ (List.mem_map.mpr ⟨row, hmem, List.getD_eq_getElem row [] hrow⟩)

/-- A cell that is cut is not longer than its limit. -/
theorem length_cut_le {limit : Nat} (h : 0 < limit) (cs : List Char) :
    (cut limit cs).length ≤ limit := by
  unfold cut
  split
  · omega
  · split
    · exact List.length_take_le _ _
    · simp
      omega

/-! ### Newlines -/

theorem newline_not_mem_border (widths : List Nat) : '\n' ∉ border widths := by
  simp [border]

theorem newline_not_mem_line {widths : List Nat} (h : ∀ cs ∈ row, '\n' ∉ cs) :
    '\n' ∉ line widths row := by
  intro hmem
  have hcells := List.mem_of_ne_of_mem (by decide) hmem
  obtain ⟨⟨cs, w⟩, hcs, hcell⟩ := List.mem_flatMap.mp hcells
  have hclear := h cs (List.of_mem_zip hcs).1
  simp [alignedRight, blanks, hclear] at hcell

/-! ### Tables -/

variable {b : Batch} {limit cellLimit : Nat}

/-- The lines of a table by its widths. -/
theorem lines_eq (b : Batch) (limit cellLimit : Nat) :
    lines b limit cellLimit =
      [border (shownWidths b limit cellLimit),
        line (shownWidths b limit cellLimit) (shownNames b),
        border (shownWidths b limit cellLimit)] ++
      (shownRows b limit cellLimit).map (line (shownWidths b limit cellLimit)) ++
      [border (shownWidths b limit cellLimit)] :=
  rfl

theorem length_shownNames (b : Batch) : (shownNames b).length = b.schema.size := by
  rw [shownNames, List.length_map, Schema.names, List.length_map, Schema.size]

theorem length_of_mem_shownRows (h : ∀ row ∈ b.rows, row.length = b.schema.size)
    (hrow : row ∈ shownRows b limit cellLimit) :
    row.length = (shownNames b).length := by
  obtain ⟨values, hvalues, rfl⟩ := List.mem_map.mp hrow
  rw [List.length_map, length_shownNames, h values (List.mem_of_mem_take hvalues)]

theorem length_getElem_shownNames {i : Nat} (h : i < b.schema.names.length)
    (hi : i < (shownNames b).length) : (shownNames b)[i].length = b.schema.names[i].length := by
  simp only [shownNames, List.getElem_map, String.length_toList]

/-- The texts of a column are its name and its cells. -/
theorem columnLengths_eq (hrows : ∀ row ∈ b.rows, row.length = b.schema.size) {i : Nat}
    (hi : i < (shownNames b).length) :
    columnLengths b limit cellLimit i = {n | n = 3 ∨ ∃ cs ∈ (shownNames b)[i] ::
      (shownRows b limit cellLimit).map (fun row => row.getD i []), n = cs.length} := by
  ext n
  constructor
  · rintro (rfl | ⟨name, hname, rfl⟩ | ⟨row, hrow, cs, hcs, rfl⟩)
    · exact .inl rfl
    · obtain ⟨_, rfl⟩ := List.getElem?_eq_some_iff.mp hname
      exact .inr ⟨_, List.mem_cons_self, (length_getElem_shownNames ..).symm⟩
    · have hcell : row.getD i [] = cs := by rw [List.getD_eq_getElem?_getD, hcs, Option.getD_some]
      exact .inr ⟨cs, List.mem_cons_of_mem _ (List.mem_map.mpr ⟨row, hrow, hcell⟩), rfl⟩
  · rintro (rfl | ⟨cs, hcs, rfl⟩)
    · exact .inl rfl
    · rcases List.mem_cons.mp hcs with rfl | hcs
      · have hname : i < b.schema.names.length := List.length_map String.toList ▸ hi
        exact .inr (.inl ⟨_, List.getElem?_eq_getElem hname, length_getElem_shownNames ..⟩)
      · obtain ⟨row, hrow, rfl⟩ := List.mem_map.mp hcs
        have hcell : i < row.length := length_of_mem_shownRows hrows hrow ▸ hi
        exact .inr (.inr ⟨row, hrow, _, List.getElem?_eq_getElem hcell,
          by rw [List.getD_eq_getElem row [] hcell]⟩)

/-- A column is as wide as it has to be. -/
theorem isGreatest_columnLengths (hrows : ∀ row ∈ b.rows, row.length = b.schema.size) {i w : Nat}
    (h : (shownWidths b limit cellLimit)[i]? = some w) :
    IsGreatest (columnLengths b limit cellLimit i) w := by
  obtain ⟨hi, rfl⟩ := List.getElem?_eq_some_iff.mp h
  have hnames : i < (shownNames b).length := length_widths _ _ ▸ hi
  have hwidth : (shownWidths b limit cellLimit)[i] = width ((shownNames b)[i] ::
      (shownRows b limit cellLimit).map fun row => row.getD i []) := getElem_widths hnames hi
  rw [hwidth, columnLengths_eq hrows hnames]
  exact isGreatest_width _

/-- A line of a table is a border, or shows the names or a row. -/
theorem border_or_line {text : List Char} (h : text ∈ lines b limit cellLimit) :
    text = border (shownWidths b limit cellLimit) ∨
      ∃ cells, (cells = shownNames b ∨ cells ∈ shownRows b limit cellLimit) ∧
        text = line (shownWidths b limit cellLimit) cells := by
  simp only [lines_eq, List.mem_append, List.mem_cons, List.mem_map, List.not_mem_nil,
    or_false] at h
  rcases h with ((rfl | rfl | rfl) | ⟨row, hrow, rfl⟩) | rfl
  · exact .inl rfl
  · exact .inr ⟨_, .inl rfl, rfl⟩
  · exact .inl rfl
  · exact .inr ⟨row, .inr hrow, rfl⟩
  · exact .inl rfl

/-- A table without newlines in its names and cells is cut into its lines by the newlines. -/
theorem splitPieces_render (hnames : ∀ name ∈ b.schema.names, '\n' ∉ name.toList)
    (hcells : ∀ row ∈ shownRows b limit cellLimit, ∀ cs ∈ row, '\n' ∉ cs) :
    splitPieces (· == '\n') (render b limit cellLimit).toList = lines b limit cellLimit := by
  rw [render, String.toList_ofList]
  refine splitPieces_intercalate (by simp [lines_eq]) fun piece hpiece => ?_
  rcases border_or_line hpiece with rfl | ⟨cells, rfl | hrow, rfl⟩
  · exact newline_not_mem_border _
  · refine newline_not_mem_line fun cs hcs => ?_
    obtain ⟨name, hname, rfl⟩ := List.mem_map.mp hcs
    exact hnames name hname
  · exact newline_not_mem_line (hcells cells hrow)

/-- The lines of a table of rows that have a cell for every column are equally long. -/
theorem length_of_mem_lines (hrows : ∀ row ∈ b.rows, row.length = b.schema.size)
    {text : List Char} (h : text ∈ lines b limit cellLimit) :
    text.length = 1 + ((shownWidths b limit cellLimit).map (· + 1)).sum := by
  rcases border_or_line h with rfl | ⟨cells, rfl | hrow, rfl⟩
  · exact length_border _
  · exact length_line (header_fits _ _)
  · exact length_line (row_fits hrow (length_of_mem_shownRows hrows hrow))

/-- A table of rows that have a cell for every column is a rectangle. Its cells are measured without
meeting one outside of the columns, and a column is as wide as its name and its cells need, but not
narrower than three. The text has a line for each of the first rows, one for the names and three for
the border, each as long as the columns with a border before, between and behind them, and no cell
is longer than the limit for cells. -/
theorem render_rectangular (b : Batch) (limit cellLimit : Nat)
    (hrows : ∀ row ∈ b.rows, row.length = b.schema.size)
    (hnames : ∀ name ∈ b.schema.names, '\n' ∉ name.toList)
    (hcells : ∀ row ∈ shownRows b limit cellLimit, ∀ cs ∈ row, '\n' ∉ cs) :
    ∃ ws : List Nat,
      measured? (shownNames b) (shownRows b limit cellLimit) = some ws ∧
      ws.length = b.schema.size ∧
      (∀ i w, ws[i]? = some w → IsGreatest (columnLengths b limit cellLimit i) w) ∧
      (splitPieces (· == '\n') (render b limit cellLimit).toList).length =
        min limit b.size + 4 ∧
      (∀ text ∈ splitPieces (· == '\n') (render b limit cellLimit).toList,
        text.length = 1 + (ws.map (· + 1)).sum) ∧
      (0 < cellLimit → ∀ row ∈ shownRows b limit cellLimit, ∀ cs ∈ row, cs.length ≤ cellLimit) := by
  rw [splitPieces_render hnames hcells]
  refine ⟨_, measured?_eq fun row => length_of_mem_shownRows hrows, ?_,
    fun i w => isGreatest_columnLengths hrows, ?_, fun text => length_of_mem_lines hrows,
    fun hlimit row hrow cs hcs => ?_⟩
  · rw [length_widths, length_shownNames]
  · simp [lines_eq, shownRows, Batch.size]
  · obtain ⟨values, -, rfl⟩ := List.mem_map.mp hrow
    obtain ⟨value, -, rfl⟩ := List.mem_map.mp hcs
    exact length_cut_le hlimit _

/-- A batch of which one cell is cut. -/
def cutBatch : Batch :=
  ⟨⟨[⟨"id", .utf8, false⟩, ⟨"näme", .utf8, true⟩]⟩,
    [[.string "a", .string "änderbar"], [.string "b", .null]]⟩

theorem render_rectangular_cutBatch :
    (∀ row ∈ cutBatch.rows, row.length = cutBatch.schema.size) ∧
      (∀ name ∈ cutBatch.schema.names, '\n' ∉ name.toList) ∧
      (∀ row ∈ shownRows cutBatch 5 6, ∀ cs ∈ row, '\n' ∉ cs) ∧
      ∃ ws : List Nat,
        measured? (shownNames cutBatch) (shownRows cutBatch 5 6) = some ws ∧
        ∀ text ∈ splitPieces (· == '\n') (render cutBatch 5 6).toList,
          text.length = 1 + (ws.map (· + 1)).sum := by
  have hrows : ∀ row ∈ cutBatch.rows, row.length = cutBatch.schema.size := by
    simp [cutBatch, Schema.size]
  have hnames : ∀ name ∈ cutBatch.schema.names, '\n' ∉ name.toList := by decide
  have hcells : ∀ row ∈ shownRows cutBatch 5 6, ∀ cs ∈ row, '\n' ∉ cs := by decide
  obtain ⟨ws, hmeasured, -, -, -, hlength, -⟩ := render_rectangular cutBatch 5 6 hrows hnames hcells
  exact ⟨hrows, hnames, hcells, ws, hmeasured, hlength⟩

end BatchTransfer.Table
