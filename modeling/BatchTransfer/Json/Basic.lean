/-!
# JSON values

Row values are JSON values. Whole numbers and floating-point numbers are told apart, and the
fields of an object keep the order in which they first appeared. `Record` is an object whose
names are distinct; writing a name again keeps its place and replaces its value, which
`Record.keys_put` and `Record.get?_put` state.
-/

namespace BatchTransfer

/-- A JSON value. -/
inductive Json where
  | null
  | bool (value : Bool)
  | int (value : Int)
  | float (value : Float)
  | string (value : String)
  | array (items : List Json)
  | object (fields : List (String × Json))
  deriving Inhabited

namespace Json

/-- The value of the first field of that name. -/
def field? (name : String) : List (String × Json) → Option Json
  | [] => none
  | (key, value) :: rest => if key = name then some value else field? name rest

/-- Writes a field: in place where the name is there already, at the end where it is new. -/
def putField (name : String) (value : Json) : List (String × Json) → List (String × Json)
  | [] => [(name, value)]
  | (key, old) :: rest =>
      if key = name then (key, value) :: rest else (key, old) :: putField name value rest

theorem keys_putField (name : String) (value : Json) (fields : List (String × Json)) :
    (putField name value fields).map Prod.fst =
      if name ∈ fields.map Prod.fst then fields.map Prod.fst
      else fields.map Prod.fst ++ [name] := by
  induction fields with
  | nil => simp [putField]
  | cons field rest ih =>
    obtain ⟨key, old⟩ := field
    by_cases h : key = name
    · simp [putField, h]
    · have h' : ¬ name = key := fun e => h e.symm
      simp only [putField, h, if_false, List.map_cons, ih, List.mem_cons, h', false_or]
      split <;> simp

theorem field?_putField (name other : String) (value : Json) (fields : List (String × Json)) :
    field? other (putField name value fields) =
      if other = name then some value else field? other fields := by
  induction fields with
  | nil =>
    by_cases h : other = name <;> simp [putField, field?, h]
    exact fun e => h e.symm
  | cons field rest ih =>
    obtain ⟨key, old⟩ := field
    by_cases hk : key = name <;> by_cases ho : other = name <;>
      simp_all [putField, field?] <;> grind

mutual

/-- Equality of values. Numbers are compared by value, so a negative zero equals zero, and the
order of the fields of an object does not matter. -/
def equal : Json → Json → Bool
  | null, null => true
  | bool a, bool b => a == b
  | int a, int b => a == b
  | float a, float b => a == b
  | string a, string b => a == b
  | array as, array bs => equalItems as bs
  | object as, object bs => as.length == bs.length && includedFields as bs
  | _, _ => false

/-- Equality of lists of values, item by item. -/
def equalItems : List Json → List Json → Bool
  | [], [] => true
  | a :: as, b :: bs => equal a b && equalItems as bs
  | _, _ => false

/-- Whether every field has an equal value under its name in the other fields. -/
def includedFields : List (String × Json) → List (String × Json) → Bool
  | [], _ => true
  | (key, a) :: rest, bs =>
      (match field? key bs with
        | some b => equal a b
        | none => false) && includedFields rest bs

end

end Json

/-- A JSON object: fields in order, with distinct names. -/
structure Record where
  fields : List (String × Json)
  distinct : (fields.map Prod.fst).Nodup

namespace Record

/-- The record without fields. -/
def empty : Record := ⟨[], List.nodup_nil⟩

instance : Inhabited Record := ⟨empty⟩

/-- Two records with the same fields in the same order are the same. -/
@[ext]
theorem ext {a b : Record} (h : a.fields = b.fields) : a = b := by
  cases a; cases b; simp_all

/-- The names of the fields in order. -/
def keys (r : Record) : List String := r.fields.map Prod.fst

/-- The value under a name. -/
def get? (r : Record) (name : String) : Option Json := Json.field? name r.fields

/-- Writes a field: in place where the name is there already, at the end where it is new. -/
def put (r : Record) (name : String) (value : Json) : Record where
  fields := Json.putField name value r.fields
  distinct := by
    rw [Json.keys_putField]
    split
    · exact r.distinct
    · rename_i h
      exact List.nodup_append.2 ⟨r.distinct, by simp, by grind⟩

@[simp]
theorem keys_put (r : Record) (name : String) (value : Json) :
    (r.put name value).keys = if name ∈ r.keys then r.keys else r.keys ++ [name] :=
  Json.keys_putField name value r.fields

@[simp]
theorem get?_put (r : Record) (name other : String) (value : Json) :
    (r.put name value).get? other = if other = name then some value else r.get? other :=
  Json.field?_putField name other value r.fields

/-- The record that results from writing the fields one after the other. -/
def ofFields (fields : List (String × Json)) : Record :=
  fields.foldl (fun r field => r.put field.1 field.2) empty

/-- The record as a JSON value. -/
def toJson (r : Record) : Json := .object r.fields

/-- The record that a JSON value is, if it is an object. -/
def ofJson? : Json → Option Record
  | .object fields => some (ofFields fields)
  | _ => none

/-- Equality up to the order of fields. -/
def equal (a b : Record) : Bool := Json.equal a.toJson b.toJson

end Record

end BatchTransfer
