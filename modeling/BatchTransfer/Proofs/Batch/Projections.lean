import BatchTransfer.Proofs.Batch.Records
import Mathlib.Data.List.Forall2

/-!
# Projections of batches

`Batch.Picks` says of a projected batch, without its making, that it holds the columns of the wanted
names: their fields, and row by row the cells that stand under these names. A projection of a
projection is one projection, as a column that is picked twice is the same column. The main theorem
is `Batch.picks_named_columns`.
-/

namespace BatchTransfer

variable {b projected : Batch} {names wanted : List String} {chosen : List (Field × Nat)}

namespace Schema

/-- A column among selected ones is one of the schema. -/
theorem exists_columnOf?_ofChosen {s : Schema} {name : String} (h : s.select names = .ok chosen)
    (hname : name ∈ names) : ∃ c j, s.columnOf? name = some c ∧ chosen[j]? = some c ∧
      (ofChosen chosen).columnOf? name = some (c.1, j) := by
  obtain ⟨rfl, hcolumns⟩ := select_eq_ok_iff.mp h
  rw [← names_ofChosen] at hname
  obtain ⟨⟨field, j⟩, hc⟩ := exists_columnOf?_iff.mpr hname
  obtain ⟨-, hfield, rfl⟩ := columnOf?_eq_some hc
  rw [ofChosen, List.getElem?_map, Option.map_eq_some_iff] at hfield
  obtain ⟨c, hj, rfl⟩ := hfield
  exact ⟨c, j, hcolumns c (List.mem_of_getElem? hj), hj, hc⟩

/-- To select among selected columns is to select at once. -/
theorem exists_select_ofChosen {s : Schema} (h : s.select names = .ok chosen)
    (hwanted : ∀ name ∈ wanted, name ∈ names) :
    ∃ direct again, s.select wanted = .ok direct ∧
      (ofChosen chosen).select wanted = .ok again ∧ ofChosen again = ofChosen direct ∧
      ∀ row, cellsOf again (cellsOf chosen row) = cellsOf direct row := by
  induction wanted with
  | nil => exact ⟨[], [], rfl, rfl, rfl, fun _ => rfl⟩
  | cons name rest ih =>
      rw [List.forall_mem_cons] at hwanted
      obtain ⟨direct, again, hdirect, hagain, hschema, hcells⟩ := ih hwanted.2
      obtain ⟨c, j, hc, hj, hcj⟩ := exists_columnOf?_ofChosen h hwanted.1
      refine ⟨c :: direct, (c.1, j) :: again, ?_, ?_, ?_, fun row => ?_⟩
      · rw [select_cons, hc, hdirect]
        rfl
      · rw [select_cons, hcj, hagain]
        rfl
      · simp only [ofChosen, List.map_cons, mk.injEq, List.cons.injEq, true_and] at hschema ⊢
        exact hschema
      · have hcell : (cellsOf chosen row).getD j .null = row.getD c.2 .null := by
          rw [List.getD_eq_getElem?_getD, cellsOf, List.getElem?_map, hj]
          rfl
        exact List.cons_eq_cons.mpr ⟨hcell, hcells row⟩

end Schema

namespace Batch

/-- The columns of a batch under the wanted names: their fields in the wanted order, and the rows in
theirs, each with the cells that stand under the wanted names. -/
structure Picks (names : List String) (b projected : Batch) : Prop where
  names_eq : projected.schema.names = names
  fields : ∀ field ∈ projected.schema.fields, field ∈ b.schema.fields
  rows : List.Forall₂ (fun row cells => cells.length = names.length ∧
    ∀ named ∈ b.schema.names.zip row, ∀ j : Nat, names[j]? = some named.1 →
      cells[j]? = some named.2) b.rows projected.rows

/-- In a batch with distinct names a selection picks the columns of the wanted names. -/
theorem picks_of_select (hdistinct : b.schema.names.Nodup)
    (h : b.schema.select names = .ok chosen) :
    Picks names b ⟨.ofChosen chosen, b.rows.map (cellsOf chosen)⟩ := by
  obtain ⟨rfl, hcolumns⟩ := Schema.select_eq_ok_iff.mp h
  have hfield {c : Field × Nat} (hc : c ∈ chosen) : b.schema.fields[c.2]? = some c.1 :=
    (Schema.columnOf?_eq_some (hcolumns c hc)).2.1
  refine ⟨Schema.names_ofChosen chosen, fun field hmem => ?_, ?_⟩
  · obtain ⟨c, hc, rfl⟩ := List.mem_map.mp hmem
    exact List.mem_of_getElem? (hfield hc)
  · refine List.forall₂_map_right_iff.mpr (List.forall₂_same.mpr fun row _ => ⟨?_, ?_⟩)
    · rw [cellsOf, List.length_map, List.length_map]
    · intro named hnamed j hj
      obtain ⟨c, hc, hname⟩ := Option.map_eq_some_iff.mp (List.getElem?_map .. ▸ hj)
      obtain ⟨i, hi⟩ := List.mem_iff_getElem?.mp hnamed
      obtain ⟨hiname, hicell⟩ := List.getElem?_zip_eq_some.mp hi
      have hcname : b.schema.names[c.2]? = some named.1 := by
        rw [Schema.names, List.getElem?_map, hfield (List.mem_of_getElem? hc), ← hname]
        rfl
      -- The names are distinct, so the column stands where the cell does.
      have hplace : c.2 = i := by
        obtain ⟨hlt, -⟩ := List.getElem?_eq_some_iff.mp hcname
        exact (List.getElem?_inj hlt hdistinct).mp (hcname.trans hiname.symm)
      rw [cellsOf, List.getElem?_map, hc, Option.map_some, List.getD_eq_getElem?_getD, hplace,
        hicell, Option.getD_some]

/-- To project a projection is to project at once. -/
theorem exists_project_project (h : b.project (.columns names) = .ok projected)
    (hwanted : ∀ name ∈ wanted, name ∈ names) :
    ∃ again, projected.project (.columns wanted) = .ok again ∧
      b.project (.columns wanted) = .ok again := by
  obtain ⟨chosen, hchosen, rfl⟩ := project_columns_eq_ok_iff.mp h
  obtain ⟨direct, again, hdirect, hagain, hschema, hcells⟩ :=
    Schema.exists_select_ofChosen hchosen hwanted
  refine ⟨⟨.ofChosen direct, b.rows.map (cellsOf direct)⟩, ?_, ?_⟩
  · refine project_columns_eq_ok_iff.mpr ⟨again, hagain, ?_⟩
    rw [hschema, List.map_map]
    exact congrArg _ (List.map_congr_left fun row _ => (hcells row).symm)
  · exact project_columns_eq_ok_iff.mpr ⟨direct, hdirect, rfl⟩

/-- A projection that is accepted keeps the names of columns distinct. -/
theorem nodup_names_of_project {p : Projection} (hdistinct : b.schema.names.Nodup)
    (hp : Projection.ofList names = .ok p) (h : b.project p = .ok projected) :
    projected.schema.names.Nodup := by
  rcases Projection.ofList_eq_ok_iff.mp hp with ⟨-, rfl⟩ | ⟨-, -, hnames, rfl⟩
  · cases h
    exact hdistinct
  · obtain ⟨chosen, hchosen, rfl⟩ := project_columns_eq_ok_iff.mp h
    exact (picks_of_select hdistinct hchosen).names_eq.symm ▸ hnames

/-- A projection picks exactly the named columns. It succeeds exactly if every wanted name is that
of a column, and then picks the columns of these names. A projection of what it leaves to some of
the names is the same as that of the batch itself. The names of an accepted list, which is the star
alone or a list of distinct names without the star and the empty name, leave a batch with distinct
names. -/
theorem picks_named_columns (hdistinct : b.schema.names.Nodup) :
    (∀ names, (∃ projected, b.project (.columns names) = .ok projected) ↔
      ∀ name ∈ names, name ∈ b.schema.names) ∧
    (∀ names projected, b.project (.columns names) = .ok projected →
      Picks names b projected ∧
      ∀ wanted, (∀ name ∈ wanted, name ∈ names) → ∃ again,
        projected.project (.columns wanted) = .ok again ∧
          b.project (.columns wanted) = .ok again) ∧
    ∀ names p, (Projection.ofList names = .ok p ↔ names = ["*"] ∧ p = .all ∨
        names ≠ [] ∧ names.Nodup ∧ (∀ name ∈ names, name ≠ "*" ∧ name ≠ "") ∧
          p = .columns names) ∧
      ∀ projected, Projection.ofList names = .ok p → b.project p = .ok projected →
        projected.schema.names.Nodup := by
  refine ⟨fun names => ?_, fun names projected h => ⟨?_, fun wanted => exists_project_project h⟩,
    fun names p => ⟨?_, fun projected => nodup_names_of_project hdistinct⟩⟩
  · rw [← Schema.exists_select_iff]
    simp only [project_columns_eq_ok_iff]
    exact ⟨fun ⟨_, chosen, h, _⟩ => ⟨chosen, h⟩, fun ⟨chosen, h⟩ => ⟨_, chosen, h, rfl⟩⟩
  · obtain ⟨chosen, hchosen, rfl⟩ := project_columns_eq_ok_iff.mp h
    exact picks_of_select hdistinct hchosen
  · rw [Projection.ofList_eq_ok_iff]
    exact or_congr Iff.rfl (and_congr_right fun _ => and_left_comm)

/-- A batch with two columns. -/
def twoColumns : Batch where
  schema := ⟨[⟨"id", .int64, false⟩, ⟨"note", .utf8, true⟩]⟩
  rows := [[.int 1, .string "first"], [.int 2, .null]]

/-- Two columns change their places, and one of them is picked as if they had not. -/
theorem picks_named_columns_swapped :
    twoColumns.schema.names.Nodup ∧
    ∃ swapped, twoColumns.project (.columns ["note", "id"]) = .ok swapped ∧
      swapped.rows = [[.string "first", .int 1], [.null, .int 2]] ∧
      Picks ["note", "id"] twoColumns swapped ∧
      (∃ again, swapped.project (.columns ["id"]) = .ok again ∧
        twoColumns.project (.columns ["id"]) = .ok again) ∧
      Projection.ofList ["note", "id"] = .ok (.columns ["note", "id"]) ∧
      swapped.schema.names.Nodup := by
  have hdistinct : twoColumns.schema.names.Nodup := by decide
  obtain ⟨haccepts, hpicks, hlists⟩ := picks_named_columns hdistinct
  obtain ⟨swapped, hswapped⟩ := (haccepts ["note", "id"]).mpr (by decide)
  obtain ⟨hcolumns, hagain⟩ := hpicks _ _ hswapped
  obtain ⟨hlist, hnames⟩ := hlists ["note", "id"] (.columns ["note", "id"])
  have haccepted := hlist.mpr (.inr ⟨by decide, by decide, by decide, rfl⟩)
  refine ⟨hdistinct, swapped, hswapped, ?_, hcolumns, hagain ["id"] (by decide), haccepted,
    hnames _ haccepted hswapped⟩
  cases hswapped
  rfl

end Batch

end BatchTransfer
