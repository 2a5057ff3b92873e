import BatchTransfer.Proofs.Batch.Records
import Mathlib.Data.List.Forall2
import Mathlib.Data.List.GetD

/-!
# Batches stay rectangular

Only `Batch.new` looks at the lengths of rows. `Batch.Made` are the batches that come of it, of the
batch without rows and of records, by projections and by cutting, and each of these keeps a cell for
every column in every row (`Batch.Made.isRegular`). So a projection takes cells only from places that
rows have, which `Batch.projectWithin?` checks place by place, and the records of a batch have every
cell under the name of its own column. The main theorem is `Batch.Made.stays_rectangular`.
-/

namespace BatchTransfer

/-! ### Records of rows -/

namespace Record

/-- A record has the cells of a row under the names of their columns. Where columns share a name, it
is the cell of the last one. -/
structure HoldsCells (names : List String) (row : Row) (r : Record) : Prop where
  keys_eq : r.keys = names.eraseDups
  cell : ∀ (i : Nat) (name : String), names[i]? = some name → name ∉ names.drop (i + 1) →
    ∃ value, row[i]? = some value ∧ r.get? name = some value

/-- The last of the fields of a name counts. -/
theorem get?_ofFields {before after : List (String × Json)} {name : String} {value : Json}
    (h : name ∉ after.map Prod.fst) :
    (ofFields (before ++ (name, value) :: after)).get? name = some value := by
  induction after using List.reverseRecOn with
  | nil => rw [ofFields_append_singleton, get?_put, if_pos rfl]
  | append_singleton after field ih =>
      rw [List.map_append, List.mem_append, not_or] at h
      have hother : name ≠ field.1 := fun heq => h.2 (by simp [heq])
      rw [← List.cons_append, ← List.append_assoc, ofFields_append_singleton, get?_put,
        if_neg hother, ih h.1]

/-- The record of a row with a cell for every column holds the cells. -/
theorem holdsCells_recordOf {schema : Schema} {row : Row} (h : row.length = schema.size) :
    HoldsCells schema.names row (Batch.recordOf schema row) := by
  have hlength : schema.names.length = row.length := by
    rw [h, Schema.names, List.length_map, Schema.size]
  constructor
  · rw [Batch.recordOf, keys_ofFields, List.map_fst_zip hlength.le]
  · intro i name hname hlast
    obtain ⟨hi, rfl⟩ := List.getElem?_eq_some_iff.mp hname
    have hcell : i < row.length := hlength ▸ hi
    have hpair : i < (schema.names.zip row).length := by simp [hi, hcell]
    have hafter : ((schema.names.zip row).drop (i + 1)).map Prod.fst = schema.names.drop (i + 1) := by
      rw [List.map_drop, List.map_fst_zip hlength.le]
    refine ⟨row[i], List.getElem?_eq_getElem hcell, ?_⟩
    rw [Batch.recordOf, ← List.take_append_drop i (schema.names.zip row),
      List.drop_eq_getElem_cons hpair, List.getElem_zip]
    exact get?_ofFields (hafter ▸ hlast)

end Record

/-! ### Taking cells -/

/-- The places of a projection are those of columns. -/
theorem Schema.lt_size_of_project {s schema : Schema} {p : Projection} {places : List Nat}
    (h : s.project p = .ok (schema, places)) : ∀ i ∈ places, i < s.size := by
  intro i hi
  cases p with
  | all =>
      cases h
      exact List.mem_range.mp hi
  | columns names =>
      obtain ⟨chosen, hchosen, heq⟩ := exists_of_map_eq_ok h
      cases heq
      obtain ⟨c, hc, rfl⟩ := List.mem_map.mp hi
      obtain ⟨-, hcolumns⟩ := select_eq_ok_iff.mp hchosen
      obtain ⟨-, hfield, -⟩ := columnOf?_eq_some (hcolumns c hc)
      exact (List.getElem?_eq_some_iff.mp hfield).1

/-- A list is mapped to its end if each of its members is. -/
theorem mapM_eq_some_map {α β : Type} {f : α → Option β} {g : α → β} {l : List α}
    (h : ∀ a ∈ l, f a = some (g a)) : l.mapM f = some (l.map g) := by
  induction l with
  | nil => rfl
  | cons a l ih =>
      rw [List.forall_mem_cons] at h
      rw [List.mapM_cons, h.1, ih h.2]
      rfl

namespace Batch

variable {b : Batch}

/-- The cells of a row at the given places. There are none if a place is outside of the row. -/
def cellsAt? (places : List Nat) (row : Row) : Option Row := places.mapM (row[·]?)

/-- The batch with the columns that a projection selects, as long as every place that it takes a cell
from is inside the row. -/
def projectWithin? (b : Batch) (p : Projection) : Option (ConnectorResult Batch) :=
  match p with
  | .all => some (.ok b)
  | .columns _ =>
      match b.schema.project p with
      | .error e => some (.error e)
      | .ok (schema, places) =>
          (b.rows.mapM (cellsAt? places)).map fun rows => .ok ⟨schema, rows⟩

theorem cellsAt?_eq {places : List Nat} {row : Row} (h : ∀ i ∈ places, i < row.length) :
    cellsAt? places row = some (places.map fun i => row.getD i .null) := by
  refine mapM_eq_some_map fun i hi => ?_
  rw [List.getElem?_eq_getElem (h i hi), List.getD_eq_getElem row .null (h i hi)]

/-- A projection of a regular batch stays inside the rows. -/
theorem projectWithin?_eq (h : b.IsRegular) (p : Projection) :
    b.projectWithin? p = some (b.project p) := by
  cases p with
  | all => rfl
  | columns names =>
      unfold projectWithin? project
      cases hproject : b.schema.project (.columns names) with
      | error e => rfl
      | ok chosen =>
          obtain ⟨schema, places⟩ := chosen
          have hplaces := Schema.lt_size_of_project hproject
          have hcells (row : Row) (hrow : row ∈ b.rows) :
              cellsAt? places row = some (places.map fun i => row.getD i .null) :=
            cellsAt?_eq fun i hi => h row hrow ▸ hplaces i hi
          simp only [mapM_eq_some_map hcells]
          rfl

/-! ### Batches that are made -/

/-- The batches that are built from rows, from nothing or from records, and then projected and cut
into chunks any number of times. -/
inductive Made : Batch → Prop where
  | new {schema : Schema} {rows : List Row} {b : Batch} (h : new schema rows = .ok b) : Made b
  | empty (schema : Schema) : Made (empty schema)
  | ofRecords (records : List Record) : Made (ofRecords records)
  | project {b projected : Batch} {p : Projection} (hb : Made b)
      (h : b.project p = .ok projected) : Made projected
  | chunk {b chunk : Batch} {size : Nat} (hb : Made b) (h : chunk ∈ b.chunks size) : Made chunk

/-- A chunk has rows of the batch only, and its schema. -/
theorem isRegular_of_mem_chunks {chunk : Batch} {size : Nat} (hb : b.IsRegular)
    (h : chunk ∈ b.chunks size) : chunk.IsRegular := by
  obtain ⟨group, hgroup, rfl⟩ := List.mem_map.mp h
  intro row hrow
  refine hb row ?_
  rw [← flatten_groupsOf (size - 1) b.rows]
  exact List.mem_flatten.mpr ⟨group, hgroup, hrow⟩

theorem Made.isRegular (h : Made b) : b.IsRegular := by
  induction h with
  | new h => exact isRegular_of_new h
  | empty => exact nofun
  | ofRecords records => exact isRegular_ofRecords records
  | project _ h ih => exact isRegular_project ih h
  | chunk _ h ih => exact isRegular_of_mem_chunks ih h

/-- Batches stay rectangular, however they are projected and cut. Every row has a cell for every
column. So the places of a projection are inside of every row, no projection takes a cell from
outside of a row, and the records of the batch have each cell of their rows under the name of its own
column. -/
theorem Made.stays_rectangular (h : Made b) :
    (∀ row ∈ b.rows, row.length = b.schema.size) ∧
    (∀ p schema places, b.schema.project p = .ok (schema, places) →
      ∀ row ∈ b.rows, ∀ i ∈ places, i < row.length) ∧
    (∀ p, b.projectWithin? p = some (b.project p)) ∧
    List.Forall₂ (fun row r => r.HoldsCells b.schema.names row) b.rows b.toRecords := by
  have hregular := h.isRegular
  refine ⟨hregular, fun p schema places hproject row hrow i hi => ?_, projectWithin?_eq hregular, ?_⟩
  · exact hregular row hrow ▸ Schema.lt_size_of_project hproject i hi
  · refine List.forall₂_map_right_iff.mpr (List.forall₂_same.mpr fun row hrow => ?_)
    exact Record.holdsCells_recordOf (hregular row hrow)

/-- Two rows with a number and a note. -/
def notedRows : Batch :=
  ⟨⟨[⟨"id", .int64, false⟩, ⟨"note", .utf8, true⟩]⟩, [[.int 1, .string "first"], [.int 2, .null]]⟩

/-- The second of the rows, with the note in front of the number and behind it. -/
def notedTwice : Batch :=
  ⟨⟨[⟨"note", .utf8, true⟩, ⟨"id", .int64, false⟩, ⟨"note", .utf8, true⟩]⟩, [[.null, .int 2, .null]]⟩

theorem made_notedTwice : Made notedTwice := by
  have hnew : Batch.new notedRows.schema notedRows.rows = .ok notedRows := rfl
  obtain ⟨wide, hwide, hchunks⟩ : ∃ wide,
      notedRows.project (.columns ["note", "id", "note"]) = .ok wide ∧
        notedTwice ∈ wide.chunks 1 := by
    refine ⟨_, rfl, ?_⟩
    simp [chunks, groupsOf, notedRows, notedTwice]
  exact ((Made.new hnew).project hwide).chunk hchunks

/-- In a batch with a column that stands twice, projections to a column that it has take the cells of
the row, and projections to one that it does not have take none. -/
theorem Made.stays_rectangular_repeated :
    Made notedTwice ∧
    (∀ row ∈ notedTwice.rows, row.length = 3) ∧
    (notedTwice.schema.project (.columns ["id", "note"]) =
      .ok (⟨[⟨"id", .int64, false⟩, ⟨"note", .utf8, true⟩]⟩, [1, 0]) ∧
      ∀ row ∈ notedTwice.rows, ∀ i ∈ [1, 0], i < row.length) ∧
    notedTwice.projectWithin? (.columns ["x"]) = some (notedTwice.project (.columns ["x"])) ∧
    List.Forall₂ (fun row r => r.HoldsCells ["note", "id", "note"] row) notedTwice.rows
      notedTwice.toRecords := by
  obtain ⟨hrows, hplaces, hwithin, hrecords⟩ := made_notedTwice.stays_rectangular
  have hproject : notedTwice.schema.project (.columns ["id", "note"]) =
      .ok (⟨[⟨"id", .int64, false⟩, ⟨"note", .utf8, true⟩]⟩, [1, 0]) := rfl
  exact ⟨made_notedTwice, hrows, ⟨hproject, hplaces _ _ _ hproject⟩, hwithin _, hrecords⟩

end Batch

end BatchTransfer
