import BatchTransfer.Batch.Basic
import BatchTransfer.Proofs.Job.Counts
import BatchTransfer.Proofs.Refusal
import Mathlib.Data.List.Induction

/-!
# Records of batches

A batch made from records, projected, cut into chunks and turned back into records yields
selections of the records (`Record.select`): the fields of the wanted names, in their order, null
where a record has none. So the chunks do not show in the records, and a selection of all columns
leaves records alone that have been through it.
-/

namespace BatchTransfer

/-- One more name is kept if it is new. -/
theorem eraseDups_append_singleton (names : List String) (last : String) :
    (names ++ [last]).eraseDups =
      if last ∈ names.eraseDups then names.eraseDups else names.eraseDups ++ [last] := by
  rw [List.eraseDups_append]
  by_cases hlast : last ∈ names
  · simp [List.removeAll, hlast]
  · simp [List.removeAll, hlast, List.eraseDups_cons]

namespace Record

/-- The fields of the wanted names, with null for those that the record does not have. -/
def select (names : List String) (r : Record) : Record :=
  .ofFields (names.map fun name => (name, (r.get? name).getD .null))

theorem fields_put_of_not_mem {r : Record} {name : String} (h : name ∉ r.keys) (value : Json) :
    (r.put name value).fields = r.fields ++ [(name, value)] := by
  have hput (fields : List (String × Json)) (hfields : name ∉ fields.map Prod.fst) :
      Json.putField name value fields = fields ++ [(name, value)] := by
    induction fields with
    | nil => rfl
    | cons field rest ih =>
        rw [List.map_cons, List.mem_cons, not_or] at hfields
        rw [Json.putField, if_neg (Ne.symm hfields.1), ih hfields.2, List.cons_append]
  exact hput r.fields h

/-- Fields with distinct names are written one behind the other. -/
theorem fields_ofFields {fields : List (String × Json)} (h : (fields.map Prod.fst).Nodup) :
    (ofFields fields).fields = fields := by
  have hwrite (r : Record) (hr : ∀ name ∈ fields.map Prod.fst, name ∉ r.keys) :
      (fields.foldl (fun r field => r.put field.1 field.2) r).fields = r.fields ++ fields := by
    induction fields generalizing r with
    | nil => exact (List.append_nil _).symm
    | cons field rest ih =>
        rw [List.map_cons, List.nodup_cons] at h
        have hnew : field.1 ∉ r.keys := hr _ List.mem_cons_self
        rw [List.foldl_cons, ih h.2, fields_put_of_not_mem hnew, List.append_assoc]
        · rfl
        · intro name hname
          rw [keys_put, if_neg hnew, List.mem_append, List.mem_singleton, not_or]
          refine ⟨hr name (List.mem_cons_of_mem _ hname), ?_⟩
          rintro rfl
          exact h.1 hname
  exact hwrite empty fun name _ => List.not_mem_nil

variable {names : List String}

theorem fields_select (h : names.Nodup) (r : Record) :
    (r.select names).fields = names.map fun name => (name, (r.get? name).getD .null) := by
  refine fields_ofFields ?_
  rw [List.map_map]
  exact (List.map_id names).symm ▸ h

theorem keys_select (h : names.Nodup) (r : Record) : (r.select names).keys = names := by
  rw [keys, fields_select h, List.map_map]
  exact List.map_id names

theorem get?_select (h : names.Nodup) (r : Record) {name : String} (hname : name ∈ names) :
    (r.select names).get? name = some ((r.get? name).getD .null) := by
  rw [get?, fields_select h]
  clear h
  induction names with
  | nil => cases hname
  | cons first rest ih =>
      rw [List.map_cons, Json.field?]
      split
      · rename_i hfirst
        rw [hfirst]
      · rename_i hfirst
        exact ih ((List.mem_cons.mp hname).resolve_left (Ne.symm hfirst))

/-- A selection of the same names changes nothing any more. -/
theorem select_select (h : names.Nodup) (r : Record) :
    (r.select names).select names = r.select names := by
  refine ext ?_
  rw [fields_select h, fields_select h]
  refine List.map_congr_left fun name hname => ?_
  rw [get?_select h r hname, Option.getD_some]

theorem get?_of_mem (r : Record) {field : String × Json} (h : field ∈ r.fields) :
    r.get? field.1 = some field.2 := by
  have hfield (fields : List (String × Json)) (hdistinct : (fields.map Prod.fst).Nodup)
      (hmem : field ∈ fields) : Json.field? field.1 fields = some field.2 := by
    induction fields with
    | nil => cases hmem
    | cons first rest ih =>
        rw [List.map_cons, List.nodup_cons] at hdistinct
        rw [Json.field?]
        rcases List.mem_cons.mp hmem with rfl | hmem
        · rw [if_pos rfl]
        · have hne : first.1 ≠ field.1 := fun heq =>
            hdistinct.1 (heq ▸ List.mem_map_of_mem hmem)
          rw [if_neg hne, ih hdistinct.2 hmem]
  exact hfield r.fields r.distinct h

theorem get?_eq_some_iff {r : Record} {name : String} {value : Json} :
    r.get? name = some value ↔ (name, value) ∈ r.fields := by
  refine ⟨?_, fun h => r.get?_of_mem h⟩
  have hfield (fields : List (String × Json)) (h : Json.field? name fields = some value) :
      (name, value) ∈ fields := by
    fun_induction Json.field? name fields with
    | case1 => cases h
    | case2 found rest =>
        cases h
        exact List.mem_cons_self
    | case3 key found rest hkey ih => exact List.mem_cons_of_mem _ (ih h)
  exact hfield r.fields

theorem get?_eq_none_iff {r : Record} {name : String} : r.get? name = none ↔ name ∉ r.keys := by
  rw [Option.eq_none_iff_forall_ne_some, keys, List.mem_map]
  constructor
  · rintro h ⟨field, hfield, rfl⟩
    exact h field.2 (r.get?_of_mem hfield)
  · rintro h value hvalue
    exact h ⟨(name, value), get?_eq_some_iff.mp hvalue, rfl⟩

/-- A selection of all fields of a record is the record. -/
theorem select_keys (r : Record) : r.select r.keys = r := by
  refine ext ?_
  rw [fields_select (show r.keys.Nodup from r.distinct), keys, List.map_map]
  refine (List.map_congr_left fun field hfield => ?_).trans (List.map_id r.fields)
  rw [Function.comp_apply, r.get?_of_mem hfield]
  rfl

theorem ofFields_append_singleton (fields : List (String × Json)) (field : String × Json) :
    ofFields (fields ++ [field]) = (ofFields fields).put field.1 field.2 := by
  rw [ofFields, List.foldl_append]
  rfl

/-- The names of fields that are written one after the other, each once. -/
theorem keys_ofFields (fields : List (String × Json)) :
    (ofFields fields).keys = (fields.map Prod.fst).eraseDups := by
  induction fields using List.reverseRecOn with
  | nil => rfl
  | append_singleton fields field ih =>
      rw [ofFields_append_singleton, keys_put, ih, List.map_append]
      exact (eraseDups_append_singleton _ field.1).symm

end Record

/-! ### Batches made from records -/

namespace Batch

theorem nodup_eraseDups : ∀ names : List String, names.eraseDups.Nodup
  | [] => List.nodup_nil
  | name :: rest => by
      rw [List.eraseDups_cons, List.nodup_cons]
      exact ⟨by simp, nodup_eraseDups _⟩
termination_by names => names.length
decreasing_by exact Nat.lt_succ_of_le (List.length_filter_le _ _)

theorem nodup_columnNames (records : List Record) : (columnNames records).Nodup :=
  nodup_eraseDups _

theorem mem_columnNames {records : List Record} {name : String} :
    name ∈ columnNames records ↔ ∃ r ∈ records, name ∈ r.keys := by
  rw [columnNames, List.mem_eraseDups, List.mem_flatMap]

theorem eraseDups_of_nodup {names : List String} (h : names.Nodup) : names.eraseDups = names := by
  induction names with
  | nil => rfl
  | cons name rest ih =>
      rw [List.nodup_cons] at h
      have hfilter : rest.filter (fun other => !other == name) = rest := by
        refine List.filter_eq_self.mpr fun other hother => ?_
        have hne : other ≠ name := fun heq => h.1 (heq ▸ hother)
        simpa using hne
      rw [List.eraseDups_cons, hfilter, ih h.2]

/-- The columns of records that have all been selected by the same names are these. -/
theorem columnNames_map_select {names : List String} (h : names.Nodup) {records : List Record}
    (hne : records ≠ []) : columnNames (records.map (Record.select names)) = names := by
  obtain ⟨first, rest, rfl⟩ := List.exists_cons_of_ne_nil hne
  have hrest : ((rest.map (Record.select names)).flatMap Record.keys).removeAll names = [] := by
    refine List.filter_eq_nil_iff.mpr fun name hname => ?_
    obtain ⟨r, hr, hkey⟩ := List.mem_flatMap.mp hname
    obtain ⟨r', -, rfl⟩ := List.mem_map.mp hr
    rw [Record.keys_select h] at hkey
    simpa using hkey
  rw [columnNames, List.map_cons, List.flatMap_cons, Record.keys_select h, List.eraseDups_append,
    hrest, eraseDups_of_nodup h]
  exact List.append_nil names

/-- A selection of all columns leaves records alone that have been selected by the same names. -/
theorem select_columnNames {names : List String} (h : names.Nodup) (records : List Record) :
    (records.map (Record.select names)).map
        (Record.select (columnNames (records.map (Record.select names)))) =
      records.map (Record.select names) := by
  by_cases hne : records = []
  · rw [hne]
    rfl
  · rw [columnNames_map_select h hne, List.map_map]
    exact List.map_congr_left fun r _ => Record.select_select h r

@[simp]
theorem names_ofRecords (records : List Record) :
    (ofRecords records).schema.names = columnNames records := by
  rw [ofRecords, Schema.names, List.map_map]
  exact List.map_id _

/-- A batch made from records holds all their columns. -/
theorem toRecords_ofRecords (records : List Record) :
    (ofRecords records).toRecords = records.map (Record.select (columnNames records)) := by
  rw [toRecords]
  change ((records.map _).map _) = _
  rw [List.map_map]
  refine List.map_congr_left fun r _ => ?_
  rw [Function.comp_apply, recordOf, names_ofRecords, Record.select, List.map_prod_left_eq_zip]

@[simp]
theorem length_toRecords (b : Batch) : b.toRecords.length = b.size := List.length_map ..

/-! ### Batches whose rows fit the schema -/

/-- Whether every row has a value for each column. -/
def IsRegular (b : Batch) : Prop := ∀ row ∈ b.rows, row.length = b.schema.size

/-- A batch that is made from given rows is regular, as no other rows are accepted. -/
theorem isRegular_of_new {schema : Schema} {rows : List Row} {b : Batch}
    (h : new schema rows = .ok b) : b.IsRegular := by
  unfold new at h
  split at h
  · rename_i hfits
    cases h
    intro row hrow
    obtain ⟨i, hi⟩ := List.mem_iff_getElem?.mp hrow
    have hnone := List.findSome?_eq_none_iff.mp hfits (row, i) (List.mem_zipIdx_iff_getElem?.mpr hi)
    by_contra hlength
    simp [hlength] at hnone
  · cases h

theorem isRegular_ofRecords (records : List Record) : (ofRecords records).IsRegular := by
  intro row hrow
  obtain ⟨r, -, rfl⟩ := List.mem_map.mp hrow
  simp [ofRecords, Schema.size]

theorem keys_recordOf {b : Batch} (h : b.IsRegular) {r : Record} (hr : r ∈ b.toRecords) :
    r.keys = b.schema.names.eraseDups := by
  obtain ⟨row, hrow, rfl⟩ := List.mem_map.mp hr
  have hlength : b.schema.names.length ≤ row.length := by
    rw [h row hrow, Schema.names, List.length_map]
    exact Nat.le_refl _
  rw [recordOf, Record.keys_ofFields, List.map_fst_zip hlength]

/-- A batch that is made from the records of another has the same records: they all have the same
columns already. -/
theorem toRecords_ofRecords_toRecords {b : Batch} (h : b.IsRegular) :
    (ofRecords b.toRecords).toRecords = b.toRecords := by
  have hselected : b.toRecords.map (Record.select b.schema.names.eraseDups) = b.toRecords := by
    refine (List.map_congr_left fun r hr => ?_).trans (List.map_id b.toRecords)
    rw [← keys_recordOf h hr]
    exact r.select_keys
  rw [toRecords_ofRecords, ← hselected]
  exact select_columnNames (nodup_eraseDups b.schema.names) b.toRecords

end Batch

/-! ### Columns that a schema selects -/

namespace Schema

variable {s : Schema} {name : String} {names : List String}

/-- The first column of that name, with its place. -/
def columnOf? (s : Schema) (name : String) : Option (Field × Nat) :=
  (s.indexOf? name).bind fun i => s.fields[i]?.map (·, i)

theorem columnOf?_eq_some {c : Field × Nat} (h : s.columnOf? name = some c) :
    s.indexOf? name = some c.2 ∧ s.fields[c.2]? = some c.1 ∧ c.1.name = name := by
  obtain ⟨i, hi, hc⟩ := Option.bind_eq_some_iff.mp h
  obtain ⟨field, hfield, rfl⟩ := Option.map_eq_some_iff.mp hc
  obtain ⟨hlt, hname, -⟩ := List.findIdx?_eq_some_iff_getElem.mp hi
  rw [List.getElem?_eq_getElem hlt, Option.some.injEq] at hfield
  exact ⟨hi, hfield ▸ List.getElem?_eq_getElem hlt, hfield ▸ eq_of_beq hname⟩

theorem exists_columnOf?_iff : (∃ c, s.columnOf? name = some c) ↔ name ∈ s.names := by
  constructor
  · rintro ⟨c, hc⟩
    obtain ⟨-, hfield, rfl⟩ := columnOf?_eq_some hc
    exact List.mem_map_of_mem (List.mem_of_getElem? hfield)
  · intro h
    obtain ⟨field, hfield, rfl⟩ := List.mem_map.mp h
    obtain ⟨i, hi⟩ : ∃ i, s.indexOf? field.name = some i := by
      rw [← Option.isSome_iff_exists, indexOf?, List.findIdx?_isSome, List.any_eq_true]
      exact ⟨field, hfield, beq_self_eq_true _⟩
    obtain ⟨hlt, -⟩ := List.findIdx?_eq_some_iff_getElem.mp hi
    refine ⟨(s.fields[i], i), ?_⟩
    rw [columnOf?, hi, Option.bind_some, List.getElem?_eq_getElem hlt, Option.map_some]

theorem select_cons (s : Schema) (name : String) (rest : List String) :
    s.select (name :: rest) =
      match s.columnOf? name with
      | none => .error (s.unknownColumn name)
      | some c => (s.select rest).map (c :: ·) := by
  rw [select, columnOf?]
  cases s.indexOf? name with
  | none => rfl
  | some i =>
      rw [Option.bind_some]
      dsimp only
      cases s.fields[i]? <;> rfl

/-- The columns that are selected are those of the names, in their order, each the first of its
name. -/
theorem select_eq_ok_iff {chosen : List (Field × Nat)} : s.select names = .ok chosen ↔
    chosen.map (·.1.name) = names ∧ ∀ c ∈ chosen, s.columnOf? c.1.name = some c := by
  induction names generalizing chosen with
  | nil =>
      rw [select, Except.ok.injEq, List.map_eq_nil_iff, eq_comm]
      exact ⟨fun h => ⟨h, h ▸ nofun⟩, And.left⟩
  | cons name rest ih =>
      rw [select_cons]
      constructor
      · intro h
        split at h
        · cases h
        · rename_i c hc
          obtain ⟨others, hothers, rfl⟩ := exists_of_map_eq_ok h
          obtain ⟨hnames, hcolumns⟩ := ih.mp hothers
          obtain ⟨-, -, hname⟩ := columnOf?_eq_some hc
          rw [List.map_cons, hnames, hname, List.forall_mem_cons, hname]
          exact ⟨rfl, hc, hcolumns⟩
      · rintro ⟨hnames, hcolumns⟩
        cases chosen with
        | nil => cases hnames
        | cons c others =>
            cases hnames
            rw [List.forall_mem_cons] at hcolumns
            rw [hcolumns.1]
            dsimp only
            rw [ih.mpr ⟨rfl, hcolumns.2⟩]
            rfl

/-- Names are selected exactly if the schema has them all. -/
theorem exists_select_iff :
    (∃ chosen, s.select names = .ok chosen) ↔ ∀ name ∈ names, name ∈ s.names := by
  constructor
  · rintro ⟨chosen, hchosen⟩ name hname
    obtain ⟨rfl, hcolumns⟩ := select_eq_ok_iff.mp hchosen
    obtain ⟨c, hc, rfl⟩ := List.mem_map.mp hname
    exact exists_columnOf?_iff.mp ⟨c, hcolumns c hc⟩
  · intro h
    induction names with
    | nil => exact ⟨[], rfl⟩
    | cons name rest ih =>
        rw [List.forall_mem_cons] at h
        obtain ⟨c, hc⟩ := exists_columnOf?_iff.mpr h.1
        obtain ⟨others, hothers⟩ := ih h.2
        refine ⟨c :: others, ?_⟩
        rw [select_cons, hc, hothers]
        rfl

/-- The schema of selected columns. -/
def ofChosen (chosen : List (Field × Nat)) : Schema := ⟨chosen.map (·.1)⟩

theorem names_ofChosen (chosen : List (Field × Nat)) :
    (ofChosen chosen).names = chosen.map (·.1.name) := List.map_map

end Schema

/-- The cells of a row in selected columns. -/
def cellsOf (chosen : List (Field × Nat)) (row : Row) : Row :=
  chosen.map fun c => row.getD c.2 .null

namespace Batch

/-- A projection to names holds the columns that are selected by them. -/
theorem project_columns_eq_ok_iff {b projected : Batch} {names : List String} :
    b.project (.columns names) = .ok projected ↔ ∃ chosen, b.schema.select names = .ok chosen ∧
      projected = ⟨.ofChosen chosen, b.rows.map (cellsOf chosen)⟩ := by
  constructor
  · intro h
    obtain ⟨⟨schema, places⟩, hplaces, rfl⟩ := exists_of_map_eq_ok h
    obtain ⟨chosen, hchosen, heq⟩ := exists_of_map_eq_ok hplaces
    cases heq
    refine ⟨chosen, hchosen, ?_⟩
    simp only [List.map_map]
    rfl
  · rintro ⟨chosen, hchosen, rfl⟩
    rw [project, Schema.project, hchosen]
    simp only [Except.map, List.map_map]
    rfl

/-- A projection keeps every row. -/
theorem size_of_project {b projected : Batch} {p : Projection} (h : b.project p = .ok projected) :
    projected.size = b.size := by
  cases p with
  | all =>
      cases h
      rfl
  | columns names =>
      obtain ⟨chosen, -, rfl⟩ := project_columns_eq_ok_iff.mp h
      exact List.length_map ..

theorem totalSize_of_projects {batches projected : List Batch} {p : Projection}
    (h : batches.map (·.project p) = projected.map .ok) :
    totalSize projected = totalSize batches := by
  induction batches generalizing projected with
  | nil =>
      cases List.map_eq_nil_iff.mp h.symm
      rfl
  | cons b rest ih =>
      cases projected with
      | nil => cases h
      | cons first more =>
          obtain ⟨hb, hrest⟩ : b.project p = .ok first ∧ rest.map (·.project p) = more.map .ok :=
            List.cons.inj h
          rw [totalSize_cons, totalSize_cons, size_of_project hb, ih hrest]

/-- What is answered to each batch after the projection is answered to all of them in order. -/
theorem eq_map_of_projects {α : Type} {answer : Batch → α} {answers : List α}
    {batches projected : List Batch} {p : Projection}
    (h : batches.map (·.project p) = projected.map .ok)
    (hanswers : List.Forall₂ (fun b a => ∃ q, b.project p = .ok q ∧ a = answer q) batches answers) :
    answers = projected.map answer := by
  induction hanswers generalizing projected with
  | nil =>
      cases List.map_eq_nil_iff.mp h.symm
      rfl
  | cons hfirst _ ih =>
      obtain ⟨q, hproject, rfl⟩ := hfirst
      cases projected with
      | nil => cases h
      | cons first more =>
          obtain ⟨hb, hrest⟩ := List.cons.inj h
          cases hproject.symm.trans hb
          rw [List.map_cons, ih hrest]

/-- A projection leaves a value for each column that it selects. -/
theorem isRegular_project {b projected : Batch} {p : Projection} (hb : b.IsRegular)
    (h : b.project p = .ok projected) : projected.IsRegular := by
  cases p with
  | all =>
      cases h
      exact hb
  | columns names =>
      obtain ⟨chosen, -, rfl⟩ := project_columns_eq_ok_iff.mp h
      intro row hrow
      obtain ⟨values, -, rfl⟩ := List.mem_map.mp hrow
      rw [cellsOf, Schema.size, Schema.ofChosen, List.length_map, List.length_map]

/-- A batch made from records, projected to columns that occur in them, holds these columns. -/
theorem project_ofRecords {records : List Record} {names : List String}
    (h : ∀ name ∈ names, name ∈ columnNames records) :
    ∃ b, (ofRecords records).project (.columns names) = .ok b ∧
      b.toRecords = records.map (Record.select names) := by
  obtain ⟨chosen, hchosen⟩ :=
    Schema.exists_select_iff (s := (ofRecords records).schema).mpr (by simpa using h)
  obtain ⟨hnames, hcolumns⟩ := Schema.select_eq_ok_iff.mp hchosen
  refine ⟨_, project_columns_eq_ok_iff.mpr ⟨chosen, hchosen, rfl⟩, ?_⟩
  rw [toRecords]
  change (((records.map _).map _).map _) = _
  rw [List.map_map, List.map_map]
  refine List.map_congr_left fun r _ => ?_
  rw [Function.comp_apply, Function.comp_apply, recordOf, Schema.names_ofChosen, cellsOf,
    Record.select, ← hnames, List.map_map, List.zip_map']
  congr 1
  refine List.map_congr_left fun c hc => ?_
  obtain ⟨-, hfield, -⟩ := Schema.columnOf?_eq_some (hcolumns c hc)
  have hplace : (ofRecords records).schema.names[c.2]? = some c.1.name := by
    rw [Schema.names, List.getElem?_map, hfield, Option.map_some]
  rw [names_ofRecords] at hplace
  rw [Function.comp_apply, List.getD_eq_getElem?_getD, List.getElem?_map, hplace]
  rfl

/-! ### Chunks -/

theorem flatten_groupsOf (size : Nat) (rows : List Row) : (groupsOf size rows).flatten = rows := by
  fun_induction groupsOf size rows with
  | case1 => rfl
  | case2 row rest ih => rw [List.flatten_cons, ih, List.cons_append, List.take_append_drop]

theorem ne_nil_of_mem_groupsOf {size : Nat} {rows group : List Row}
    (h : group ∈ groupsOf size rows) : group ≠ [] := by
  fun_induction groupsOf size rows with
  | case1 => cases h
  | case2 row rest ih =>
      rcases List.mem_cons.mp h with rfl | h
      · exact List.cons_ne_nil _ _
      · exact ih h

/-- The chunks of a batch hold its records, in order. -/
theorem flatMap_toRecords_chunks (b : Batch) (size : Nat) :
    (b.chunks size).flatMap toRecords = b.toRecords := by
  rw [chunks, List.flatMap_map, toRecords, ← flatten_groupsOf (size - 1) b.rows,
    List.map_flatten, List.flatMap_def, flatten_groupsOf]
  rfl

theorem length_le_of_mem_groupsOf {size : Nat} {rows group : List Row}
    (h : group ∈ groupsOf size rows) : group.length ≤ size + 1 := by
  fun_induction groupsOf size rows with
  | case1 => cases h
  | case2 row rest ih =>
      rcases List.mem_cons.mp h with rfl | h
      · rw [List.length_cons, List.length_take]
        omega
      · exact ih h

/-- No chunk has more rows than wanted. -/
theorem size_le_of_mem_chunks {b chunk : Batch} {size : Nat} (h : chunk ∈ b.chunks size) :
    chunk.size ≤ max 1 size := by
  obtain ⟨group, hgroup, rfl⟩ := List.mem_map.mp h
  have hlength := length_le_of_mem_groupsOf hgroup
  show group.length ≤ max 1 size
  omega

/-- Every chunk has rows. -/
theorem isEmpty_of_mem_chunks {b chunk : Batch} {size : Nat} (h : chunk ∈ b.chunks size) :
    chunk.isEmpty = false := by
  obtain ⟨group, hgroup, rfl⟩ := List.mem_map.mp h
  rw [isEmpty, List.isEmpty_eq_false_iff]
  exact ne_nil_of_mem_groupsOf hgroup

theorem length_of_mem_dropLast_groupsOf {size : Nat} {rows group : List Row}
    (h : group ∈ (groupsOf size rows).dropLast) : group.length = size + 1 := by
  fun_induction groupsOf size rows with
  | case1 => cases h
  | case2 row rest ih =>
      by_cases hrest : rest.drop size = []
      · rw [hrest, groupsOf] at h
        cases h
      · obtain ⟨next, others, hothers⟩ := List.exists_cons_of_ne_nil hrest
        have hmore : groupsOf size (rest.drop size) ≠ [] := by
          rw [hothers, groupsOf]
          exact List.cons_ne_nil _ _
        rw [List.dropLast_cons_of_ne_nil hmore] at h
        rcases List.mem_cons.mp h with rfl | h
        · rw [List.drop_eq_nil_iff] at hrest
          rw [List.length_cons, List.length_take]
          omega
        · exact ih h

/-- Batches with `size` rows each, but for the last, which may have fewer. None is without rows. -/
structure AreFull (size : Nat) (batches : List Batch) : Prop where
  within : ∀ b ∈ batches, 1 ≤ b.size ∧ b.size ≤ size
  full : ∀ b ∈ batches.dropLast, b.size = size

theorem areFull_chunks (b : Batch) {size : Nat} (h : 1 ≤ size) :
    AreFull size (b.chunks size) where
  within chunk hchunk :=
    ⟨List.length_pos_iff.mpr (List.isEmpty_eq_false_iff.mp (isEmpty_of_mem_chunks hchunk)),
      (size_le_of_mem_chunks hchunk).trans (by omega)⟩
  full chunk hchunk := by
    rw [chunks, ← List.map_dropLast] at hchunk
    obtain ⟨group, hgroup, rfl⟩ := List.mem_map.mp hchunk
    have hlength := length_of_mem_dropLast_groupsOf hgroup
    show group.length = size
    omega

theorem totalSize_eq_length (batches : List Batch) :
    totalSize batches = (batches.flatMap toRecords).length := by
  rw [totalSize, List.length_flatMap]
  simp

end Batch

/-! ### Streams of batches -/

namespace Stream

theorem items_listed (arrivals : List Arrival) :
    (listed arrivals).items = arrivals.map Arrival.item := by
  induction arrivals with
  | nil => exact items_of_next?_eq_none rfl
  | cons a rest ih => rw [items_of_next? rfl, ih, List.map_cons]

@[simp]
theorem items_ofItems (items : List StreamItem) : (ofItems items).items = items := by
  rw [ofItems, items_listed, List.map_map]
  exact List.map_id _

@[simp]
theorem items_ofBatches (batches : List Batch) :
    (ofBatches batches).items = batches.map .batch :=
  items_ofItems _

theorem endsNormally_ofBatches (batches : List Batch) : (ofBatches batches).EndsNormally := by
  intro item hitem
  rw [items_ofBatches] at hitem
  obtain ⟨b, -, rfl⟩ := List.mem_map.mp hitem
  exact ⟨b, rfl⟩

@[simp]
theorem batches_ofBatches (batches : List Batch) : (ofBatches batches).batches = batches := by
  rw [Stream.batches, items_ofBatches, List.filterMap_map]
  exact List.filterMap_some

/-- A stream of batches that all have rows. -/
theorem nonEmptyBatches_ofBatches {batches : List Batch} (h : ∀ b ∈ batches, b.isEmpty = false) :
    (ofBatches batches).nonEmptyBatches = batches := by
  have hfilter : (ofBatches batches).nonEmptyBatches = batches.filter (!·.isEmpty) :=
    congrArg (List.filter _) (batches_ofBatches batches)
  rw [hfilter, List.filter_eq_self]
  intro b hb
  simp [h b hb]

end Stream

end BatchTransfer
