import BatchTransfer.Batch.Table
import BatchTransfer.Connector.Call
import BatchTransfer.Connector.Settings

/-!
# Printing rows

The sink prints the first rows of a transfer as tables, one a batch, or as blocks of lines. Every
row is acknowledged, printed or not.
-/

namespace BatchTransfer

open BatchTransfer.Decimal

/-- A sink that prints the first rows. -/
structure LogSink where
  limit : Nat
  cellLimit : Nat
  vertical : Bool
  projection : Projection
  printed : Nat
  rows : Nat
  deriving Inhabited

namespace LogSink

/-- The options of the sink. -/
def schema : OptionSchema :=
  (((OptionSchema.new "log").withDefault "numRows" .integer (.integer 10) "Rows to print").withDefault
    "truncate" .integer (.integer 20) "Maximum cell width, 0 for no truncation").withDefault
    "vertical" .boolean (.boolean false) "Print rows vertically"
  |>.withColumns

/-- The settings of the sink. -/
def settings : Settings :=
  ⟨[⟨"numRows", .word64, unsigned64⟩, ⟨"truncate", .size, unsigned64⟩], []⟩

/-- The sink that options ask for. -/
def create (o : ValidOptions) : Except OptionsError LogSink := do
  settings.check o
  return ⟨o.natural "numRows", o.natural "truncate", o.flag "vertical", ← o.projection, 0, 0⟩

/-- The number of rows of a batch that are printed. -/
def shown (s : LogSink) (b : Batch) : Nat := min (s.limit - s.printed) b.size

/-- The text of the first rows of a batch. -/
def render (s : LogSink) (b : Batch) : String :=
  if s.vertical then Table.renderVertical b (s.shown b) s.cellLimit s.printed
  else Table.render b (s.shown b) s.cellLimit

/-- Prints the rows of a batch that are within the limit. -/
def write (s : LogSink) (b : Batch) : LogSink × List String × ConnectorResult Acknowledgement :=
  match b.project s.projection with
  | .error e => (s, [], .error e)
  | .ok b =>
      ({ s with printed := s.printed + s.shown b, rows := s.rows + b.size },
        if s.shown b = 0 then [] else ["\n" ++ s.render b],
        .ok ⟨b.size, 0⟩)

/-- Commits the sink, which says how many rows were left out. -/
def commit (s : LogSink) : List String × CommitReceipt :=
  (if s.printed < s.rows then [s!"only showing top {s.printed} of {s.rows} rows"] else [],
    ⟨s.rows, none⟩)

end LogSink

end BatchTransfer
