/-!
# Failures of connectors

A connector reports what kind of failure happened and a detail in words. The kind decides whether
a write, or an attempt to open, is worth repeating.
-/

namespace BatchTransfer

/-- The kind of a failure. -/
inductive FailureKind where
  | config
  | connection
  | auth
  | notFound
  | rateLimited
  | timeout
  | serialization
  | schema
  | transient
  | fatal
  | internal
  | io
  | json
  | objectStore
  deriving DecidableEq, Repr, Inhabited

/-- The words that begin the message of a failure. -/
def FailureKind.label : FailureKind → String
  | config => "configuration error"
  | connection => "connection error"
  | auth => "authentication error"
  | notFound => "not found"
  | rateLimited => "rate limited"
  | timeout => "timeout"
  | serialization => "serialization error"
  | schema => "schema error"
  | transient => "transient error (retryable)"
  | fatal => "fatal error"
  | internal => "internal error"
  | io => "io error"
  | json => "json error"
  | objectStore => "object store error"

/-- The name of a kind. -/
def FailureKind.name : FailureKind → String
  | config => "config"
  | connection => "connection"
  | auth => "auth"
  | notFound => "not_found"
  | rateLimited => "rate_limited"
  | timeout => "timeout"
  | serialization => "serialization"
  | schema => "schema"
  | transient => "transient"
  | fatal => "fatal"
  | internal => "internal"
  | io => "io"
  | json => "json"
  | objectStore => "object_store"

/-- All kinds. -/
def FailureKind.all : List FailureKind :=
  [config, connection, auth, notFound, rateLimited, timeout, serialization, schema, transient,
    fatal, internal, io, json, objectStore]

/-- The kind of a name. -/
def FailureKind.ofName? (s : String) : Option FailureKind := all.find? (·.name == s)

/-- A failure that a connector reports. -/
structure ConnectorError where
  kind : FailureKind
  detail : String
  deriving DecidableEq, Repr, Inhabited

/-- What a call of a connector yields. -/
abbrev ConnectorResult := Except ConnectorError

namespace ConnectorError

/-- The failure in words. -/
def message (e : ConnectorError) : String := s!"{e.kind.label}: {e.detail}"

/-- The failure in words, and then what lies behind it: a failure of the system underneath is one of
its own. -/
def messages (e : ConnectorError) : List String :=
  match e.kind with
  | .io | .json | .objectStore => [e.message, e.detail]
  | _ => [e.message]

/-- Whether a write that failed so may be repeated. -/
def isRetryable (e : ConnectorError) : Bool :=
  match e.kind with
  | .connection | .rateLimited | .timeout | .transient => true
  | _ => false

/-- Whether an attempt to open that failed so may be repeated. -/
def isRetryableOnOpen (e : ConnectorError) : Bool :=
  match e.kind with
  | .timeout | .transient => true
  | _ => false

/-- What may be repeated on opening may be repeated on writing. -/
theorem isRetryable_of_isRetryableOnOpen {e : ConnectorError} (h : e.isRetryableOnOpen = true) :
    e.isRetryable = true := by
  unfold isRetryableOnOpen at h
  unfold isRetryable
  split at h <;> simp_all

end ConnectorError

end BatchTransfer
