import BatchTransfer.Rehearsal.Script

/-!
# Scripts in JSON

A script is written as a JSON object with a field for every call that it says anything about. An
error is written as the name of its kind and its detail.
-/

namespace BatchTransfer.Rehearsal

/-- The value of a field, where it is there and not null. -/
def given? (j : Json) (name : String) : Option Json :=
  match j with
  | .object fields =>
      match Json.field? name fields with
      | some .null => none
      | other => other
  | _ => none

/-- The whole number from zero on that a value is. -/
def naturalOf? : Json → Option Nat
  | .int n => some n.toNat
  | _ => none

/-- The items of a field. -/
def itemsOf (j : Json) (name : String) : List Json :=
  match given? j name with
  | some (.array items) => items
  | _ => []

/-- The error that a value is. -/
def errorOf? : Json → Option ConnectorError
  | .array [.string kind, .string detail] => (FailureKind.ofName? kind).map (⟨·, detail⟩)
  | _ => none

/-- The delay in a field, none where it is not given. -/
def delayOf (j : Json) (name : String) : Nat := ((given? j name).bind naturalOf?).getD 0

/-- The delays in a field. -/
def delaysOf (j : Json) (name : String) : List Nat :=
  (itemsOf j name).map fun d => (naturalOf? d).getD 0

/-- The errors in a field. -/
def errorsOf (j : Json) (name : String) : List (Option ConnectorError) :=
  (itemsOf j name).map errorOf?

/-- The item of a stream that a value is: any text means a breakdown. -/
def scriptedItemOf (j : Json) : Nat × ScriptedItem :=
  match j with
  | .string _ => (0, .breakdown)
  | j =>
      match (given? j "error").bind errorOf? with
      | some e => (delayOf j "delay_ms", .failure e)
      | none => (delayOf j "delay_ms", .rows ((itemsOf j "rows").filterMap Record.ofJson?))

/-- The script that a value is. -/
def Script.ofJson (j : Json) : Script where
  sourceOpenDelays := delaysOf j "source_open_delay_ms"
  sourceOpens := errorsOf j "source_open"
  read := (given? j "read").bind errorOf?
  items := (itemsOf j "items").map scriptedItemOf
  sourceCloseDelay := delayOf j "source_close_delay_ms"
  sourceClose := (given? j "source_close").bind errorOf?
  sinkOpenDelays := delaysOf j "sink_open_delay_ms"
  sinkOpens := errorsOf j "sink_open"
  writeDelays := delaysOf j "write_delay_ms"
  writes := errorsOf j "writes"
  commitDelay := delayOf j "commit_delay_ms"
  commit := (given? j "commit").bind errorOf?
  rowsCommitted := delayOf j "rows_committed"
  location :=
    match given? j "location" with
    | some (.string s) => some s
    | _ => none
  sinkCloseDelay := delayOf j "sink_close_delay_ms"
  sinkClose := (given? j "sink_close").bind errorOf?

end BatchTransfer.Rehearsal
