import BatchTransfer.Job.State
import BatchTransfer.Json.Basic
import BatchTransfer.RunId

/-!
# Reports

What a completed job says about itself.
-/

namespace BatchTransfer

/-- The receipt in JSON. -/
def CommitReceipt.toJson (r : CommitReceipt) : Json :=
  .object (("rows_committed", .int r.rows) ::
    match r.location with
    | some location => [("location", .string location)]
    | none => [])

/-- The report of a completed job. -/
structure JobReport where
  run : RunId
  sourceKind : String
  sinkKind : String
  progress : JobProgress
  receipt : CommitReceipt
  resultTable : Option String
  elapsed : Nat

/-- The report in JSON. -/
def JobReport.toJson (r : JobReport) : Json :=
  let p := r.progress
  .object (
    [("jobId", .string r.run.full), ("sourceKind", .string r.sourceKind),
      ("sinkKind", .string r.sinkKind), ("state", .string p.state.name),
      ("transitions", .array (p.history.map fun s => .string s.name)),
      ("rowsRead", .int p.rowsRead), ("rowsWritten", .int p.rowsWritten),
      ("bytesWritten", .int p.bytesWritten), ("batches", .int p.batches),
      ("retries", .int p.retries), ("commit", r.receipt.toJson)] ++
    (match r.resultTable with
      | some name => [("resultTableName", .string name)]
      | none => []) ++
    [("elapsedMs", .int r.elapsed)])

end BatchTransfer
