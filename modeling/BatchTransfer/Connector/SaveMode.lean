/-!
# Save modes

What a sink does with a target that holds data already.
-/

namespace BatchTransfer

/-- What a sink does with a target that holds data already. -/
inductive SaveMode where
  | append
  | overwrite
  | errorIfExists
  | ignore
  deriving DecidableEq, Repr, Inhabited

namespace SaveMode

/-- The name of a mode. -/
def name : SaveMode → String
  | append => "append"
  | overwrite => "overwrite"
  | errorIfExists => "errorIfExists"
  | ignore => "ignore"

/-- All modes. -/
def all : List SaveMode := [append, overwrite, errorIfExists, ignore]

/-- The names of all modes. -/
def choices : List String := all.map name

/-- The mode of a name. -/
def ofName? (s : String) : Option SaveMode := all.find? (·.name == s)

/-- A name leads back to its mode. -/
@[simp]
theorem ofName?_name (m : SaveMode) : ofName? m.name = some m := by cases m <;> decide

end SaveMode

end BatchTransfer
