import BatchTransfer.Job.Error
import BatchTransfer.Job.Machine
import BatchTransfer.Json.Basic
import BatchTransfer.Options.Schema
import BatchTransfer.Retry

/-!
# Configurations

A configuration settles how jobs are run: how many batches may wait between source and sink, how
long calls may take, how often failed calls are repeated, and what happens to unknown options. Every
setting has a default value. `Config.fault?` finds the first setting out of its range.
-/

namespace BatchTransfer

open BatchTransfer.Decimal

/-- How jobs are run. Limits are in seconds. -/
structure ExecutorSettings where
  capacity : Nat := 4
  openLimit : Nat := 30
  writeLimit : Nat := 300
  commitLimit : Nat := 1800
  deriving DecidableEq, Repr, Inhabited

/-- How failed calls are repeated. Delays are in milliseconds. -/
structure RetrySettings where
  maxRetries : Nat := 3
  initialDelay : Nat := 100
  maxDelay : Nat := 30000
  multiplier : Float := 2.0
  jitter : Float := 0.1
  deriving Repr, Inhabited

/-- A configuration. -/
structure Config where
  executor : ExecutorSettings := {}
  retry : RetrySettings := {}
  unknownOptions : UnknownOptionPolicy := .reject
  deriving Repr, Inhabited

namespace RetrySettings

/-- The policy by which calls are repeated. -/
def policy (s : RetrySettings) : FloatRetryPolicy :=
  { maxRetries := s.maxRetries
    initialDelay := .ofMillis s.initialDelay
    maxDelay := .ofMillis s.maxDelay
    multiplier := s.multiplier
    jitter := FloatRetryPolicy.clampShare s.jitter }

end RetrySettings

/-- Whether a number lies outside a range. What is no number lies outside of none. -/
def isOutside (low high x : Float) : Bool := x < low || high < x

namespace Config

/-- The settings that lie out of their ranges, in the order of their declaration. -/
def settingsOutOfRange (c : Config) : List String :=
  [("executor.channel_capacity", !(1 ≤ c.executor.capacity && c.executor.capacity ≤ 4096)),
    ("executor.open_timeout_secs", !(1 ≤ c.executor.openLimit)),
    ("executor.write_timeout_secs", !(1 ≤ c.executor.writeLimit)),
    ("executor.commit_timeout_secs", !(1 ≤ c.executor.commitLimit)),
    ("retry.max_retries", !(c.retry.maxRetries ≤ 100)),
    ("retry.backoff_multiplier", isOutside 1.0 10.0 c.retry.multiplier),
    ("retry.jitter", isOutside 0.0 1.0 c.retry.jitter)].filterMap fun (name, outside) =>
      if outside then some name else none

/-- What is wrong with the settings, if anything is. -/
def fault? (c : Config) : Option ConfigFault :=
  match c.settingsOutOfRange with
  | name :: _ => some (.outOfRange name)
  | [] => if c.retry.maxDelay < c.retry.initialDelay then some .backoffOrder else none

/-- The settings by which jobs are run. -/
def jobSettings (c : Config) : JobSettings :=
  { maxRetries := c.retry.maxRetries
    retryDelay := c.retry.policy.delay
    capacity := c.executor.capacity
    openLimit := .ofSeconds c.executor.openLimit
    writeLimit := .ofSeconds c.executor.writeLimit
    commitLimit := .ofSeconds c.executor.commitLimit }

/-- A float in JSON, where it is finite. -/
def floatJson (x : Float) : Json := if x.isFinite then .float x else .null

/-- The configuration as JSON. -/
def toJson (c : Config) : Json :=
  .object [
    ("executor", .object [
      ("channel_capacity", .int c.executor.capacity),
      ("open_timeout_secs", .int c.executor.openLimit),
      ("write_timeout_secs", .int c.executor.writeLimit),
      ("commit_timeout_secs", .int c.executor.commitLimit)]),
    ("retry", .object [
      ("max_retries", .int c.retry.maxRetries),
      ("initial_backoff_ms", .int c.retry.initialDelay),
      ("max_backoff_ms", .int c.retry.maxDelay),
      ("backoff_multiplier", floatJson c.retry.multiplier),
      ("jitter", floatJson c.retry.jitter)]),
    ("options", .object [("unknown", .string c.unknownOptions.name)])]

end Config

end BatchTransfer
