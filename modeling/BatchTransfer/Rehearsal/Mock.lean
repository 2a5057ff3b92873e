import BatchTransfer.Batch.Basic

/-!
# A mock target and its faults

For rehearsals, a mock source and sink count their calls, keep what was written, and fail on demand.
-/

namespace BatchTransfer.Rehearsal

/-- A kind of failure to inject. -/
inductive Fault where
  | transient
  | timeout
  | connection
  | schema
  | fatal
  deriving DecidableEq, Repr, Inhabited

/-- The name of a fault. -/
def Fault.name : Fault → String
  | transient => "transient"
  | timeout => "timeout"
  | connection => "connection"
  | schema => "schema"
  | fatal => "fatal"

/-- The fault of a name. -/
def Fault.ofName? (s : String) : Option Fault :=
  [transient, timeout, connection, schema, fatal].find? (·.name == s)

/-- The error of a fault in a call. -/
def Fault.error (f : Fault) (call : String) : ConnectorError :=
  match f with
  | transient => ⟨.transient, s!"injected {call} failure"⟩
  | timeout => ⟨.timeout, s!"injected {call} timeout"⟩
  | connection => ⟨.connection, s!"injected {call} refusal"⟩
  | schema => ⟨.schema, s!"injected {call} schema mismatch"⟩
  | fatal => ⟨.fatal, s!"injected {call} failure"⟩

/-- The counters, the faults still to come, and the rows of the mock connectors. -/
structure Mock where
  sourceOpens : Nat := 0
  sourceCloses : Nat := 0
  sinkOpens : Nat := 0
  sinkCloses : Nat := 0
  writeCalls : Nat := 0
  commitCalls : Nat := 0
  sourceOpenFaults : List Fault := []
  sinkOpenFaults : List Fault := []
  writeFaults : List (Nat × Fault) := []
  readFailsAfter : Option Nat := none
  commitFault : Option Fault := none
  writeDelay : Nat := 0
  cancelAfterWrites : Option Nat := none
  asksToCancel : Bool := false
  staged : List Batch := []
  visible : List Batch := []
  deriving Inhabited

namespace Mock

/-- Makes a write fail, by its number. -/
def failWrite (m : Mock) (number : Nat) (fault : Fault) : Mock :=
  { m with writeFaults := (number, fault) :: m.writeFaults.filter (·.1 != number) }

/-- The fault of a write, by its number. -/
def writeFault? (m : Mock) (number : Nat) : Option Fault :=
  (m.writeFaults.find? (·.1 == number)).map Prod.snd

/-- The records that are visible, in the order of writing. -/
def visibleRecords (m : Mock) : List Record := m.visible.flatMap Batch.toRecords

/-- The number of rows that are visible. -/
def visibleRows (m : Mock) : Nat := m.visible.foldr (fun b n => b.size + n) 0

/-- Keeps a batch, visible or staged, and asks for cancellation where enough batches are kept. -/
def keep (m : Mock) (visible : Bool) (b : Batch) : Mock :=
  let m := if visible then { m with visible := m.visible ++ [b] }
    else { m with staged := m.staged ++ [b] }
  let enough := m.cancelAfterWrites.any (· ≤ m.visible.length + m.staged.length)
  { m with asksToCancel := m.asksToCancel || enough }

/-- Makes the staged batches visible. -/
def publish (m : Mock) : Mock := { m with staged := [], visible := m.visible ++ m.staged }

end Mock

end BatchTransfer.Rehearsal
