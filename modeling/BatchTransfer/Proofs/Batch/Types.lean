import BatchTransfer.Proofs.Batch.Records
import Mathlib.Data.Multiset.Lattice
import Mathlib.Order.Bounds.Basic

/-!
# Inferred column types

The types of columns are a semilattice with `DataType.widen` as its join, the type of null at the
bottom and that of nested values at the top. The type that is inferred for a column is the join of
the types of its values, taken as a multiset (`Batch.columnType_eq_sup`), so neither the order of
the records nor their division into batches shows in it. The main theorem is `Batch.infers_joins`.
-/

namespace BatchTransfer

namespace DataType

instance : Max DataType := ⟨widen⟩

/-- A type is at most another if the other holds its values too. -/
instance : SemilatticeSup DataType := .mk' widen_comm widen_assoc widen_self

instance : OrderBot DataType where
  bot := null
  bot_le := null_widen

instance : OrderTop DataType where
  top := json
  le_top a := by cases a <;> rfl

theorem le_iff_widen {a b : DataType} : a ≤ b ↔ a.widen b = b := Iff.rfl

end DataType

/-- The type of the column of that name, if there is one. -/
def Schema.typeOf? (s : Schema) (name : String) : Option DataType :=
  (s.fields.find? (·.name == name)).map Field.dataType

namespace Batch

variable {records : List Record} {name : String}

/-- The types of the values under a name, each as often as it occurs. -/
def valueTypes (records : List Record) (name : String) : Multiset DataType :=
  ((records.filterMap (·.get? name)).map DataType.of : List DataType)

theorem mem_valueTypes {type : DataType} : type ∈ valueTypes records name ↔
    ∃ r ∈ records, ∃ value, (name, value) ∈ r.fields ∧ DataType.of value = type := by
  simp only [valueTypes, Multiset.mem_coe, List.mem_map, List.mem_filterMap,
    Record.get?_eq_some_iff]
  constructor
  · rintro ⟨value, ⟨r, hr, hvalue⟩, htype⟩
    exact ⟨r, hr, value, hvalue, htype⟩
  · rintro ⟨r, hr, value, hvalue, htype⟩
    exact ⟨value, ⟨r, hr, hvalue⟩, htype⟩

theorem valueTypes_append (rs ss : List Record) :
    valueTypes (rs ++ ss) name = valueTypes rs name + valueTypes ss name := by
  simp only [valueTypes, List.filterMap_append, List.map_append, Multiset.coe_add]

theorem valueTypes_perm {rs ss : List Record} (h : rs.Perm ss) :
    valueTypes rs name = valueTypes ss name :=
  Multiset.coe_eq_coe.mpr ((h.filterMap _).map _)

/-- The type of a column is the join of the types of its values. -/
theorem columnType_eq_sup (records : List Record) (name : String) :
    columnType records name = (valueTypes records name).sup := by
  rw [columnType, valueTypes, Multiset.sup, Multiset.coe_fold_l, List.foldl_map]
  rfl

theorem valueTypes_eq_zero (h : name ∉ columnNames records) : valueTypes records name = 0 := by
  refine Multiset.eq_zero_of_forall_notMem fun type htype => h ?_
  obtain ⟨r, hr, value, hvalue, -⟩ := mem_valueTypes.mp htype
  exact mem_columnNames.mpr ⟨r, hr, List.mem_map_of_mem hvalue⟩

/-- The type of a column that no record has is that of null, which no join shows. -/
theorem columnType_of_not_mem (h : name ∉ columnNames records) :
    columnType records name = .null := by
  rw [columnType_eq_sup, valueTypes_eq_zero h]
  rfl

theorem columnType_append (rs ss : List Record) :
    columnType (rs ++ ss) name = (columnType rs name).widen (columnType ss name) := by
  rw [columnType_eq_sup, columnType_eq_sup, columnType_eq_sup, valueTypes_append, Multiset.sup_add]
  rfl

theorem columnType_perm {rs ss : List Record} (h : rs.Perm ss) :
    columnType rs name = columnType ss name := by
  rw [columnType_eq_sup, columnType_eq_sup, valueTypes_perm h]

/-- The inferred type is the least that holds all values under the name. -/
theorem isLUB_columnType (records : List Record) (name : String) :
    IsLUB {type | ∃ r ∈ records, ∃ value, (name, value) ∈ r.fields ∧ DataType.of value = type}
      (columnType records name) := by
  rw [columnType_eq_sup]
  refine ⟨fun type htype => ?_, fun bound hbound => ?_⟩
  · exact Multiset.le_sup (mem_valueTypes.mpr htype)
  · exact Multiset.sup_le.mpr fun type htype => hbound (mem_valueTypes.mp htype)

/-- The type of a value, or of the null for a value that is lacking, is at most that of its column.
-/
theorem of_le_columnType {r : Record} (hr : r ∈ records) (name : String) :
    DataType.of ((r.get? name).getD .null) ≤ columnType records name := by
  cases hvalue : r.get? name with
  | none => exact bot_le
  | some value =>
      rw [Record.get?_eq_some_iff] at hvalue
      exact (isLUB_columnType records name).1 ⟨r, hr, value, hvalue, rfl⟩

theorem typeOf?_ofRecords (records : List Record) (name : String) :
    (ofRecords records).schema.typeOf? name =
      if name ∈ columnNames records then some (columnType records name) else none := by
  have hfind (names : List String) : names.find? (· == name) =
      if name ∈ names then some name else none := by
    induction names with
    | nil => rfl
    | cons first rest ih =>
        by_cases hfirst : first = name
        · simp [hfirst]
        · simp [hfirst, Ne.symm hfirst, ih]
  rw [Schema.typeOf?, ofRecords, List.find?_map, Option.map_map]
  change (List.find? (· == name) _).map _ = _
  rw [hfind]
  split <;> rfl

/-- The type that is inferred for a column is the join of the types of the values under its name,
for each name that a record has. It is the same for the records in any order, that of two lists of
records one behind the other is the join of theirs, and every value of the column is of it or of a
narrower type. -/
theorem infers_joins (name : String) :
    (∀ records type, (ofRecords records).schema.typeOf? name = some type ↔
      (∃ r ∈ records, name ∈ r.keys) ∧
      IsLUB {t | ∃ r ∈ records, ∃ value, (name, value) ∈ r.fields ∧ DataType.of value = t} type) ∧
    (∀ rs ss : List Record, rs.Perm ss →
      (ofRecords rs).schema.typeOf? name = (ofRecords ss).schema.typeOf? name) ∧
    (∀ rs ss, (ofRecords (rs ++ ss)).schema.typeOf? name =
      Option.merge DataType.widen ((ofRecords rs).schema.typeOf? name)
        ((ofRecords ss).schema.typeOf? name)) ∧
    ∀ records, ∀ row ∈ (ofRecords records).rows,
      ∀ column ∈ (ofRecords records).schema.fields.zip row,
        (DataType.of column.2).widen column.1.dataType = column.1.dataType := by
  simp only [typeOf?_ofRecords]
  refine ⟨fun records type => ?_, fun rs ss h => ?_, fun rs ss => ?_, fun records row hrow => ?_⟩
  · rw [Option.ite_none_right_eq_some, Option.some.injEq, mem_columnNames]
    have hjoin := isLUB_columnType records name
    exact and_congr_right fun _ => ⟨fun heq => heq ▸ hjoin, IsLUB.unique hjoin⟩
  · have hmem : name ∈ columnNames rs ↔ name ∈ columnNames ss := by
      simp only [mem_columnNames, h.mem_iff]
    simp only [hmem, columnType_perm h]
  · have hmem : name ∈ columnNames (rs ++ ss) ↔ name ∈ columnNames rs ∨ name ∈ columnNames ss := by
      simp only [mem_columnNames, List.mem_append, or_and_right, exists_or]
    simp only [hmem, columnType_append]
    by_cases hrs : name ∈ columnNames rs <;> by_cases hss : name ∈ columnNames ss
    · simp [hrs, hss]
    · simp [hrs, hss, columnType_of_not_mem hss]
    · simp [hrs, hss, columnType_of_not_mem hrs]
    · simp [hrs, hss]
  · obtain ⟨r, hr, rfl⟩ := List.mem_map.mp hrow
    intro column hcolumn
    rw [ofRecords, List.zip_map'] at hcolumn
    obtain ⟨other, -, rfl⟩ := List.mem_map.mp hcolumn
    exact of_le_columnType hr other

/-- A record with a whole number. -/
def wholeRecord : Record := .ofFields [("n", .int 1)]

/-- A record with a number that is not whole, and a null. -/
def halfRecord : Record := .ofFields [("n", .float 1.5), ("note", .null)]

/-- A whole number and one that is not whole make a column of floating-point numbers, in either
order, and the whole number is of a narrower type than its column. -/
theorem infers_joins_mixed :
    (ofRecords [wholeRecord, halfRecord]).schema.typeOf? "n" = some .float64 ∧
    (ofRecords [halfRecord, wholeRecord]).schema.typeOf? "n" = some .float64 ∧
    (ofRecords [wholeRecord, halfRecord]).rows = [[.int 1, .null], [.float 1.5, .null]] ∧
    (DataType.of (.int 1)).widen .float64 = .float64 := by
  obtain ⟨-, hperm, happend, hcells⟩ := infers_joins "n"
  have hwhole : (ofRecords [wholeRecord]).schema.typeOf? "n" = some .int64 := rfl
  have hhalf : (ofRecords [halfRecord]).schema.typeOf? "n" = some .float64 := rfl
  have hboth : (ofRecords [wholeRecord, halfRecord]).schema.typeOf? "n" = some .float64 := by
    rw [← List.singleton_append, happend, hwhole, hhalf]
    rfl
  refine ⟨hboth, ?_, rfl, ?_⟩
  · rw [← hboth]
    exact hperm _ _ (.swap _ _ [])
  · exact hcells [wholeRecord, halfRecord] _ List.mem_cons_self (⟨"n", .float64, false⟩, .int 1)
      List.mem_cons_self

end Batch

end BatchTransfer
