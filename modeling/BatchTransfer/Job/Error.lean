import BatchTransfer.Connector.Error
import BatchTransfer.Options.Error
import BatchTransfer.Statement.Error

/-!
# Failures of jobs

A job ends with at most one failure: the statement or its options are rejected, a connector fails in
one of its calls, or the job is cancelled.
-/

namespace BatchTransfer

/-- Why a configuration is of no use. -/
inductive ConfigFault where
  | unreadable (path reason : String)
  | malformed
  | outOfRange (setting : String)
  | backoffOrder
  | registryInstalled
  | other (text : String)
  deriving DecidableEq, Repr

/-- The fault in words. -/
def ConfigFault.message : ConfigFault → String
  | unreadable path reason => s!"failed to read {path}: {reason}"
  | malformed => "invalid config"
  | outOfRange setting => s!"{setting}: Validation error"
  | backoffOrder => "retry.max_backoff_ms must not be smaller than retry.initial_backoff_ms"
  | registryInstalled => "connector registry already installed"
  | other text => text

/-- The failure of a job. -/
inductive JobError where
  | statement (error : StatementError)
  | options (error : OptionsError)
  | unknownKind (role : Role) (kind : String)
  | connection (role : Role) (kind : String) (error : ConnectorError)
  | sourceRead (kind : String) (error : ConnectorError)
  | sinkWrite (kind : String) (attempts : Nat) (error : ConnectorError)
  | sinkCommit (kind : String) (error : ConnectorError)
  | cancelled
  | config (fault : ConfigFault)

namespace JobError

/-- The name of the kind of a failure. -/
def kindName : JobError → String
  | statement _ => "parse_error"
  | options _ => "options_error"
  | unknownKind .. => "unknown_connector_kind"
  | connection .. => "connection_error"
  | sourceRead .. => "source_read_error"
  | sinkWrite .. => "sink_write_error"
  | sinkCommit .. => "sink_commit_error"
  | cancelled => "cancelled"
  | config _ => "config_error"

/-- The failure in words. -/
def message : JobError → String
  | statement e => e.message
  | options e => e.message
  | unknownKind role kind => s!"unknown {role.name} connector kind: '{kind}'"
  | connection role kind e => s!"failed to open {role.name} '{kind}': {e.message}"
  | sourceRead kind e => s!"source '{kind}' read failed: {e.message}"
  | sinkWrite kind attempts e =>
      s!"sink '{kind}' write failed after {attempts} attempt(s): {e.message}"
  | sinkCommit kind e => s!"sink '{kind}' commit failed: {e.message}"
  | cancelled => "job cancelled"
  | config fault => s!"configuration error: {fault.message}"

/-- Whether the job was cancelled. -/
def isCancelled : JobError → Bool
  | cancelled => true
  | _ => false

/-- The failure of a connector behind a failure. -/
def cause? : JobError → Option ConnectorError
  | connection _ _ e => some e
  | sourceRead _ e => some e
  | sinkWrite _ _ e => some e
  | sinkCommit _ e => some e
  | _ => none

/-- The failure in words, and then what lies behind it, from the outside in. -/
def messages (e : JobError) : List String :=
  e.message :: e.cause?.elim [] ConnectorError.messages

end JobError

/-- What a job, or a part of its work, yields. -/
abbrev JobResult := Except JobError

end BatchTransfer
