import BatchTransfer.Json.Basic
import BatchTransfer.KeyMap

/-!
# Tables in memory

A host keeps named tables of records. Every operation on tables is an operation on this map, and
`get?` is the only view of it.
-/

namespace BatchTransfer

/-- Tables of records by name. -/
abbrev Tables := KeyMap (List Record)

namespace Tables

/-- Adds rows behind those of a table, which is created where it is missing. -/
def append (t : Tables) (name : String) (rows : List Record) : Tables :=
  t.insert name ((t.get? name).getD [] ++ rows)

/-- Replaces the rows of a table. -/
def replace (t : Tables) (name : String) (rows : List Record) : Tables := t.insert name rows

/-- Creates a table where it is missing. -/
def ensure (t : Tables) (name : String) : Tables := t.append name []

/-- The number of rows of a table, zero where it is missing. -/
def rowCount (t : Tables) (name : String) : Nat := ((t.get? name).getD []).length

/-- Appending changes the table appended to and no other. -/
@[simp]
theorem get?_append (t : Tables) (name other : String) (rows : List Record) :
    (t.append name rows).get? other =
      if other = name then some ((t.get? name).getD [] ++ rows) else t.get? other := by
  simp [append]

end Tables

end BatchTransfer
