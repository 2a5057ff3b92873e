import BatchTransfer.Json.Basic

/-!
# Column types

The type of a column is the narrowest one that holds all its values. `DataType.widen` joins two
types: it is associative, commutative and idempotent, with the type of null as its identity.
-/

namespace BatchTransfer

/-- The type of a column. -/
inductive DataType where
  | null
  | boolean
  | int64
  | float64
  | utf8
  | json
  deriving DecidableEq, Repr, Inhabited

namespace DataType

/-- The name of a type. -/
def name : DataType → String
  | null => "null"
  | boolean => "boolean"
  | int64 => "int64"
  | float64 => "float64"
  | utf8 => "utf8"
  | json => "json"

/-- All types. -/
def all : List DataType := [null, boolean, int64, float64, utf8, json]

/-- The type of a name. -/
def ofName? (s : String) : Option DataType := all.find? (·.name == s)

/-- The type of a value. -/
def of : Json → DataType
  | .null => null
  | .bool _ => boolean
  | .int _ => int64
  | .float _ => float64
  | .string _ => utf8
  | .array _ => json
  | .object _ => json

/-- The narrowest type that holds the values of both types. -/
def widen (a b : DataType) : DataType :=
  if a = b then a
  else
    match a, b with
    | null, b => b
    | a, null => a
    | int64, float64 => float64
    | float64, int64 => float64
    | _, _ => json

@[simp]
theorem widen_self (a : DataType) : widen a a = a := by simp [widen]

@[simp]
theorem null_widen (a : DataType) : widen null a = a := by cases a <;> rfl

@[simp]
theorem widen_null (a : DataType) : widen a null = a := by cases a <;> rfl

theorem widen_comm (a b : DataType) : widen a b = widen b a := by cases a <;> cases b <;> rfl

theorem widen_assoc (a b c : DataType) : widen (widen a b) c = widen a (widen b c) := by
  cases a <;> cases b <;> cases c <;> rfl

end DataType

end BatchTransfer
