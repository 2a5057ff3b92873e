import BatchTransfer.Batch.Schema
import BatchTransfer.Options.Value

/-!
# Result tables

A completed transfer may publish under a name what it has moved: where the data came from, how
many rows there were, and where they landed. Publishing a name again replaces its entry.
-/

namespace BatchTransfer

/-- What a completed transfer says about the data it moved. Options that must not be shown are
redacted. -/
structure ResultTable where
  name : String
  sourceKind : String
  sourceOptions : OptionMap
  schema : Option Schema
  rows : Nat
  location : Option String
  deriving Inhabited

/-- Published result tables by name. -/
abbrev Results := KeyMap ResultTable

/-- Publishes a result table under its name. -/
def Results.publish (r : Results) (table : ResultTable) : Results := r.insert table.name table

end BatchTransfer
