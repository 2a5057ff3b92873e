import BatchTransfer.Batch.Schema
import BatchTransfer.Connector.Call

/-!
# The states of a job

A job is planned, resolves its connectors, transfers, commits, and ends completed or failed. It may
fail from every state but the last two. `JobProgress` records the states passed and what has been
counted on the way.
-/

namespace BatchTransfer

/-- A state of a job. -/
inductive JobState where
  | planned
  | resolving
  | transferring
  | committing
  | completed
  | failed
  deriving DecidableEq, Repr, Inhabited

namespace JobState

/-- The name of a state. -/
def name : JobState → String
  | planned => "planned"
  | resolving => "resolving"
  | transferring => "transferring"
  | committing => "committing"
  | completed => "completed"
  | failed => "failed"

/-- All states. -/
def all : List JobState := [planned, resolving, transferring, committing, completed, failed]

/-- Whether no state follows. -/
def isFinal : JobState → Bool
  | completed => true
  | failed => true
  | _ => false

/-- Whether one state may follow another. -/
def mayPrecede : JobState → JobState → Bool
  | planned, resolving => true
  | resolving, transferring => true
  | transferring, committing => true
  | committing, completed => true
  | s, failed => !s.isFinal
  | _, _ => false

end JobState

/-- The states that a job has passed, and its counters. -/
structure JobProgress where
  state : JobState
  history : List JobState
  rowsRead : Nat
  rowsWritten : Nat
  bytesWritten : Nat
  batches : Nat
  retries : Nat
  schema : Option Schema
  deriving Inhabited

namespace JobProgress

/-- A job that is planned. -/
def planned : JobProgress := ⟨.planned, [.planned], 0, 0, 0, 0, 0, none⟩

/-- Enters a state. -/
def enter (p : JobProgress) (s : JobState) : JobProgress :=
  { p with state := s, history := p.history ++ [s] }

/-- Counts a batch that was read; the schema of the first one is kept. -/
def countRead (p : JobProgress) (rows : Nat) (schema : Schema) : JobProgress :=
  { p with rowsRead := p.rowsRead + rows, schema := p.schema.or (some schema) }

/-- Counts a batch that was written. -/
def countWritten (p : JobProgress) (a : Acknowledgement) : JobProgress :=
  { p with
    batches := p.batches + 1
    rowsWritten := p.rowsWritten + a.rows
    bytesWritten := p.bytesWritten + a.bytes }

/-- Counts a repetition. -/
def countRetry (p : JobProgress) : JobProgress := { p with retries := p.retries + 1 }

end JobProgress

end BatchTransfer
