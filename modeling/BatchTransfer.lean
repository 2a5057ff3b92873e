import BatchTransfer.Main
import BatchTransfer.Rehearsal.ScriptReader
import BatchTransfer.Rehearsal.Session
import BatchTransfer.Proofs.Job.Delivery
import BatchTransfer.Proofs.Statement.Grammar
import BatchTransfer.Proofs.Statement.Soundness
import BatchTransfer.Proofs.Statement.Completeness
import BatchTransfer.Proofs.Decimal.Numerals
import BatchTransfer.Proofs.Json.Printed
import BatchTransfer.Proofs.Statement.Scanning
import BatchTransfer.Proofs.Statement.WellFormed
import BatchTransfer.Proofs.Statement.RoundTrip
import BatchTransfer.Proofs.Staging.Objects
import BatchTransfer.Proofs.Staging.Atomicity
import BatchTransfer.Proofs.Registry.Redaction
import BatchTransfer.Proofs.Job.Termination
import BatchTransfer.Proofs.Job.Lifecycle
import BatchTransfer.Proofs.Job.Retries
import BatchTransfer.Proofs.Staging.Area
import BatchTransfer.Proofs.Staging.Attempts
import BatchTransfer.Proofs.Staging.Jobs
import BatchTransfer.Proofs.Job.Milestones
import BatchTransfer.Proofs.Job.Publication
import BatchTransfer.Proofs.Batch.Records
import BatchTransfer.Proofs.Options.Validation
import BatchTransfer.Proofs.Registry.Making
import BatchTransfer.Proofs.Tables.Targets
import BatchTransfer.Proofs.Tables.Direct
import BatchTransfer.Proofs.Tables.Staged
import BatchTransfer.Proofs.Tables.Loads
import BatchTransfer.Proofs.Tables.Agreement
import BatchTransfer.Proofs.Tables.Reading
import BatchTransfer.Proofs.Tables.Copies
import BatchTransfer.Proofs.Tables.ResultTables
import BatchTransfer.Proofs.Job.States
import BatchTransfer.Proofs.Options.Acceptance
import BatchTransfer.Proofs.Decimal.Order
import BatchTransfer.Proofs.Files.Lines
import BatchTransfer.Proofs.Files.Trees
import BatchTransfer.Proofs.Files.Directories
import BatchTransfer.Proofs.Files.Writing
import BatchTransfer.Proofs.Files.Reading
import BatchTransfer.Proofs.Files.Order
import BatchTransfer.Proofs.Config.Ranges
import BatchTransfer.Proofs.Job.Progress
import BatchTransfer.Proofs.Sql.Tokens
import BatchTransfer.Proofs.Sql.Loading
import BatchTransfer.Proofs.Staging.Folders
import BatchTransfer.Proofs.Staging.Sharing
import BatchTransfer.Proofs.Job.Attempts
import BatchTransfer.Proofs.Tables.Writers
import BatchTransfer.Proofs.Statement.Chunks
import BatchTransfer.Proofs.Statement.Respelling
import BatchTransfer.Proofs.Statement.Truncation
import BatchTransfer.Proofs.Refusal
import BatchTransfer.Proofs.Options.Faults
import BatchTransfer.Proofs.Options.Revalidation
import BatchTransfer.Proofs.Statement.Places
import BatchTransfer.Proofs.Statement.Checks
import BatchTransfer.Proofs.Statement.Repetition
import BatchTransfer.Proofs.Statement.Boundaries
import BatchTransfer.Proofs.Statement.Viability
import BatchTransfer.Proofs.Statement.Faults
import BatchTransfer.Proofs.Text.Blanks
import BatchTransfer.Proofs.Decimal.Signed
import BatchTransfer.Proofs.Options.Coercion
import BatchTransfer.Proofs.Batch.Inference
import BatchTransfer.Proofs.Batch.Types
import BatchTransfer.Proofs.Batch.Columns
import BatchTransfer.Proofs.Batch.Projections
import BatchTransfer.Proofs.Batch.Shapes
import BatchTransfer.Proofs.Batch.Chunks
import BatchTransfer.Proofs.Batch.Csv
import BatchTransfer.Proofs.Synthetic.Rows
import BatchTransfer.Proofs.Synthetic.Words
import BatchTransfer.Proofs.Synthetic.Batches
import BatchTransfer.Proofs.Files.Faults
import BatchTransfer.Proofs.Job.Failures
import BatchTransfer.Proofs.Files.Wholeness
import BatchTransfer.Proofs.Job.Endings
import BatchTransfer.Proofs.Files.Deposits
import BatchTransfer.Proofs.Files.Overwriting
import BatchTransfer.Proofs.Files.Markers
import BatchTransfer.Proofs.Log.Printing
import BatchTransfer.Proofs.Log.Jobs
import BatchTransfer.Proofs.Job.Totals
import BatchTransfer.Proofs.Sql.Querying
import BatchTransfer.Proofs.Config.References
import BatchTransfer.Proofs.Retry.Delays
import BatchTransfer.Proofs.Log.Alignment
import BatchTransfer.Proofs.Batch.Rectangles
import BatchTransfer.Proofs.Batch.Cutting
import BatchTransfer.Proofs.Json.Marks
import BatchTransfer.Proofs.Statement.Braces
import BatchTransfer.Proofs.Statement.Spans
import BatchTransfer.Proofs.Text.Lines
import BatchTransfer.Proofs.Synthetic.States
