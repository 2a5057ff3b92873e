import BatchTransfer.Connector.Settings
import BatchTransfer.Stream

/-!
# Synthetic rows as a source

The source makes up a number of rows by a pattern. It needs nothing from the host.
-/

namespace BatchTransfer

open Synthetic BatchTransfer.Decimal

/-- A source of synthetic rows. -/
structure GeneratedSource where
  supply : Supply
  batchSize : Nat
  projection : Projection
  deriving Inhabited

namespace GeneratedSource

/-- The options of the source. -/
def schema : OptionSchema :=
  ((((OptionSchema.new "datagen").required "rowCount" .integer "Total rows to generate").withDefault
    "batchSize" .integer (.integer 100) "Rows per batch").withDefault
    "pattern" (.oneOf (Pattern.all.map Pattern.name)) (.string Pattern.sequence.name)
    "Shape of generated rows").optional
    "seed" .integer "Random seed for reproducible rows"
  |>.withColumns

/-- The settings of the source. -/
def settings : Settings :=
  ⟨[⟨"rowCount", .word64, ⟨0, 1000000000⟩⟩, batchSizeSetting,
    ⟨"seed", .word64, unsigned64⟩], []⟩

/-- The pattern that options ask for. -/
def patternOf (o : ValidOptions) : Pattern :=
  ((o.string? "pattern").bind Pattern.ofName?).getD .sequence

/-- The source that options ask for. -/
def create (o : ValidOptions) : Except OptionsError GeneratedSource := do
  settings.check o
  let supply := Supply.new (patternOf o) (UInt64.ofNat (o.natural "seed")) (o.natural "rowCount")
  return ⟨supply, o.natural "batchSize", ← o.projection⟩

/-- Reads the rows, from the first one on every time. -/
def read (s : GeneratedSource) : Stream := .synthetic s.supply s.batchSize s.projection

end GeneratedSource

end BatchTransfer
