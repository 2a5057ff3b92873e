import BatchTransfer.Proofs.Batch.Records
import Mathlib.Data.List.Basic

/-!
# Batches that are built value by value

A batch can be built from its records in place. One pass over all values keeps a list of columns
that grows: a value widens the column of its name, or opens one at the end (`Batch.note`). The
columns that some record lacks then become nullable. Another pass takes the values out of each
record, column by column, and each time the last field comes into the place of the one that is taken
(`Record.takeOut`). The main theorem `Batch.build_eq_ofRecords` says that this builds
`Batch.ofRecords`, which says for each name and each record by itself what column and cell there is.
-/

namespace BatchTransfer

namespace Record

variable {name other : String}

/-- The fields without the first one of a name. The last field comes into its place. -/
def takeOutField (name : String) : List (String × Json) → List (String × Json)
  | [] => []
  | field :: rest =>
      if field.1 = name then rest.getLast?.toList ++ rest.dropLast
      else field :: takeOutField name rest

/-- But for their order, the fields are those without the one that is taken out. -/
theorem takeOutField_perm (name : String) (fields : List (String × Json)) :
    (takeOutField name fields).Perm (fields.eraseP fun field => field.1 = name) := by
  induction fields with
  | nil => exact .nil
  | cons field rest ih =>
      by_cases hfield : field.1 = name
      · rw [takeOutField, if_pos hfield, List.eraseP_cons_of_pos (by simpa using hfield)]
        rcases rest.eq_nil_or_concat with rfl | ⟨init, last, rfl⟩
        · exact .nil
        · simpa using (List.perm_append_singleton last init).symm
      · rw [takeOutField, if_neg hfield, List.eraseP_cons_of_neg (by simpa using hfield)]
        exact ih.cons field

/-- The record without the field of a name. The last field comes into its place. -/
def takeOut (name : String) (r : Record) : Record where
  fields := takeOutField name r.fields
  distinct := by
    rw [((takeOutField_perm name r.fields).map Prod.fst).nodup_iff]
    exact r.distinct.sublist (List.eraseP_sublist.map Prod.fst)

/-- The other fields stay. -/
theorem get?_takeOut (h : other ≠ name) (r : Record) :
    (r.takeOut name).get? other = r.get? other := by
  refine Option.ext fun value => ?_
  rw [get?_eq_some_iff, get?_eq_some_iff, takeOut, (takeOutField_perm name r.fields).mem_iff]
  exact List.mem_eraseP_of_neg (by simpa using h)

/-- The values under the names, each taken out of the record, with null where there is none. -/
def takeRow : List String → Record → Row
  | [], _ => []
  | name :: rest, r => (r.get? name).getD .null :: takeRow rest (r.takeOut name)

theorem takeRow_eq_map {names : List String} (h : names.Nodup) (r : Record) :
    takeRow names r = names.map fun name => (r.get? name).getD .null := by
  induction names generalizing r with
  | nil => rfl
  | cons name rest ih =>
      rw [List.nodup_cons] at h
      rw [takeRow, ih h.2, List.map_cons]
      congr 1
      refine List.map_congr_left fun other hother => ?_
      have hne : other ≠ name := fun heq => h.1 (heq ▸ hother)
      rw [get?_takeOut hne]

end Record

namespace Batch

variable {name other : String} {fields : List (String × Json)}

/-- The columns after one more value: it widens the column of its name, or opens one. -/
def note (name : String) (value : Json) : List Field → List Field
  | [] => [⟨name, .of value, isNull value⟩]
  | column :: rest =>
      if column.name = name then
        ⟨name, column.dataType.widen (.of value), column.nullable || isNull value⟩ :: rest
      else column :: note name value rest

/-- The columns of values under names that are seen one after the other. -/
def noteAll (fields : List (String × Json)) : List Field :=
  fields.foldl (fun columns field => note field.1 field.2 columns) []

/-- The column, nullable too if some record lacks it. -/
def allowLacking (records : List Record) (column : Field) : Field :=
  { column with
    nullable := column.nullable || records.any fun r => (r.get? column.name).isNone }

/-- The batch of the records, built in place. -/
def build (records : List Record) : Batch :=
  let columns := (noteAll (records.flatMap Record.fields)).map (allowLacking records)
  ⟨⟨columns⟩, records.map (Record.takeRow (columns.map Field.name))⟩

/-! ### What the growing columns say of the values seen -/

/-- The values under a name. -/
def valuesUnder (name : String) (fields : List (String × Json)) : List Json :=
  (fields.filter (·.1 = name)).map Prod.snd

/-- The column of values that are seen under a name. -/
def seenField (fields : List (String × Json)) (name : String) : Field where
  name
  dataType :=
    (valuesUnder name fields).foldl (fun type value => type.widen (DataType.of value)) .null
  nullable := (valuesUnder name fields).any isNull

theorem valuesUnder_of_not_mem (h : name ∉ fields.map Prod.fst) : valuesUnder name fields = [] := by
  rw [valuesUnder, List.map_eq_nil_iff, List.filter_eq_nil_iff]
  intro field hfield heq
  exact h (of_decide_eq_true heq ▸ List.mem_map_of_mem hfield)

/-- One more value widens the column of its name. -/
theorem seenField_append_self (fields : List (String × Json)) (name : String) (value : Json) :
    seenField (fields ++ [(name, value)]) name =
      ⟨name, (seenField fields name).dataType.widen (.of value),
        (seenField fields name).nullable || isNull value⟩ := by
  have hvalues :
      valuesUnder name (fields ++ [(name, value)]) = valuesUnder name fields ++ [value] := by
    simp [valuesUnder]
  rw [seenField, hvalues, List.foldl_concat, List.any_append, List.any_cons, List.any_nil,
    Bool.or_false]
  rfl

/-- The first value under a name gives its column its type. -/
theorem seenField_append_new (h : name ∉ fields.map Prod.fst) (value : Json) :
    seenField (fields ++ [(name, value)]) name = ⟨name, .of value, isNull value⟩ := by
  rw [seenField_append_self, seenField, valuesUnder_of_not_mem h, List.foldl_nil, List.any_nil,
    DataType.null_widen, Bool.false_or]

/-- One more value leaves the columns of other names alone. -/
theorem seenField_append_of_ne (h : other ≠ name) (value : Json) :
    seenField (fields ++ [(name, value)]) other = seenField fields other := by
  have hvalues : valuesUnder other (fields ++ [(name, value)]) = valuesUnder other fields := by
    simp [valuesUnder, Ne.symm h]
  rw [seenField, seenField, hvalues]

/-- To note a value changes the columns of the values seen into those of it too. -/
theorem note_map_seenField {names : List String} (hdistinct : names.Nodup)
    (hnew : name ∉ names → name ∉ fields.map Prod.fst) (value : Json) :
    note name value (names.map (seenField fields)) =
      (if name ∈ names then names else names ++ [name]).map
        (seenField (fields ++ [(name, value)])) := by
  induction names with
  | nil => exact congrArg ([·]) (seenField_append_new (hnew List.not_mem_nil) value).symm
  | cons first rest ih =>
      rw [List.nodup_cons] at hdistinct
      have hname : (seenField fields first).name = first := rfl
      by_cases hfirst : first = name
      · subst hfirst
        have hrest : rest.map (seenField (fields ++ [(first, value)])) =
            rest.map (seenField fields) := by
          refine List.map_congr_left fun other hother => ?_
          have hne : other ≠ first := fun heq => hdistinct.1 (heq ▸ hother)
          exact seenField_append_of_ne hne value
        rw [if_pos List.mem_cons_self, List.map_cons, List.map_cons, hrest, seenField_append_self,
          note]
        exact if_pos rfl
      · have hmem : name ∈ first :: rest ↔ name ∈ rest := by simp [Ne.symm hfirst]
        simp only [hmem] at hnew ⊢
        rw [List.map_cons, note, hname, if_neg hfirst, ih hdistinct.2 hnew,
          ← seenField_append_of_ne hfirst value]
        split <;> rfl

/-- The columns are those of the values seen, one for each name in the order of its first
appearance. -/
theorem noteAll_eq_map (fields : List (String × Json)) :
    noteAll fields = (fields.map Prod.fst).eraseDups.map (seenField fields) := by
  induction fields using List.reverseRecOn with
  | nil => rfl
  | append_singleton fields field ih =>
      have hnew : field.1 ∉ (fields.map Prod.fst).eraseDups → field.1 ∉ fields.map Prod.fst :=
        mt List.mem_eraseDups.mpr
      rw [noteAll, List.foldl_append]
      change note field.1 field.2 (noteAll fields) = _
      rw [ih, note_map_seenField (nodup_eraseDups _) hnew, List.map_append]
      exact congrArg _ (eraseDups_append_singleton _ field.1).symm

/-! ### The columns that are built -/

/-- A record has at most one value under a name. -/
theorem valuesUnder_fields (r : Record) (name : String) :
    valuesUnder name r.fields = (r.get? name).toList := by
  have hfield (fields : List (String × Json)) (hdistinct : (fields.map Prod.fst).Nodup) :
      valuesUnder name fields = (Json.field? name fields).toList := by
    induction fields with
    | nil => rfl
    | cons field rest ih =>
        rw [List.map_cons, List.nodup_cons] at hdistinct
        by_cases hname : field.1 = name
        · have hrest : valuesUnder name rest = [] := valuesUnder_of_not_mem (hname ▸ hdistinct.1)
          rw [valuesUnder, List.filter_cons_of_pos (by simpa using hname), Json.field?,
            if_pos hname, List.map_cons]
          exact congrArg (field.2 :: ·) hrest
        · rw [valuesUnder, List.filter_cons_of_neg (by simpa using hname), Json.field?,
            if_neg hname]
          exact ih hdistinct.2
  exact hfield r.fields r.distinct

theorem valuesUnder_flatMap (records : List Record) (name : String) :
    valuesUnder name (records.flatMap Record.fields) = records.filterMap (·.get? name) := by
  rw [valuesUnder, List.filter_flatMap, List.map_flatMap, List.filterMap_eq_flatMap_toList]
  exact List.flatMap_congr fun r _ => valuesUnder_fields r name

theorem allowLacking_seenField (records : List Record) (name : String) :
    allowLacking records (seenField (records.flatMap Record.fields) name) =
      inferField records name := by
  have hnullable : ((records.filterMap (·.get? name)).any isNull ||
      records.any fun r => (r.get? name).isNone) = records.any (lacks name) := by
    induction records with
    | nil => rfl
    | cons r rest ih =>
        rw [List.any_cons, List.any_cons, ← ih, lacks, List.filterMap_cons]
        cases r.get? name with
        | none => simp
        | some value => simp [Bool.or_assoc]
  rw [allowLacking, seenField, valuesUnder_flatMap, inferField, columnType, ← hnullable]

/-- A batch that is built in place is the batch of its records. -/
theorem build_eq_ofRecords (records : List Record) : build records = ofRecords records := by
  have hcolumns : (noteAll (records.flatMap Record.fields)).map (allowLacking records) =
      (columnNames records).map (inferField records) := by
    rw [noteAll_eq_map, List.map_map, List.map_flatMap]
    exact List.map_congr_left fun name _ => allowLacking_seenField records name
  have hnames : ((columnNames records).map (inferField records)).map Field.name =
      columnNames records := names_ofRecords records
  rw [build, ofRecords, hcolumns, hnames]
  exact congrArg _ (List.map_congr_left fun r _ => Record.takeRow_eq_map (nodup_columnNames _) r)

end Batch

end BatchTransfer
