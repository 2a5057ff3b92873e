import BatchTransfer.Batch.Projection
import BatchTransfer.Decimal.Numeral
import BatchTransfer.Staging.Location

/-!
# Rejected options

Options are rejected for a missing, unknown, or mistyped key, or because a value of the right type
is of no use. Every cause has its own constructor, and the wording is in `OptionsError.message`.
-/

namespace BatchTransfer

open BatchTransfer.Decimal

/-- The width of a setting that holds a whole number without a sign. -/
inductive Width where
  | word16
  | word64
  | size
  deriving DecidableEq, Repr

/-- The name of a width in messages. -/
def Width.name : Width → String
  | word16 => "u16"
  | word64 => "u64"
  | size => "usize"

/-- The numbers that fit a width. -/
def Width.range : Width → Range
  | word16 => ⟨0, 65535⟩
  | word64 => unsigned64
  | size => unsigned64

/-- Why a value of the declared type is rejected. -/
inductive InvalidReason where
  | setTwice (first second : String)
  | doesNotFit (value : Int) (width : Width)
  | outOfRange
  | badLength
  | projection (error : ProjectionError)
  | rowsOrTable
  | location (error : Staging.LocationError)
  | warehouseNeedsLocalStaging
  | clusterNeedsBucket
  | noCredentials
  deriving DecidableEq, Repr

/-- The reason in words. -/
def InvalidReason.message : InvalidReason → String
  | setTwice first second => s!"'{first}' and '{second}' both set this option"
  | doesNotFit value width =>
      "invalid value: integer `" ++ integerText value ++ "`, expected " ++ width.name
  | outOfRange => "failed 'range' check"
  | badLength => "failed 'length' check"
  | projection error => error.message
  | rowsOrTable => "exactly one of 'rows' or 'table' must be set"
  | location error => error.message
  | warehouseNeedsLocalStaging => "warehouse staging supports memory:// and file:// only"
  | clusterNeedsBucket => "redshift staging must be an s3:// or s3a:// URL"
  | noCredentials => "set redshiftRoleArn or both accessKeyId and secretAccessKey"

/-- Why the options of a connector are rejected. -/
inductive OptionsError where
  | missingRequired (kind key : String)
  | invalidType (kind key expected found : String)
  | unknown (kind key : String)
  | invalidValue (kind key : String) (reason : InvalidReason)
  deriving DecidableEq, Repr

namespace OptionsError

/-- The error in words. -/
def message : OptionsError → String
  | missingRequired kind key => s!"missing required option '{key}' for connector '{kind}'"
  | invalidType kind key expected found =>
      s!"option '{key}' for connector '{kind}' expects {expected}, got {found}"
  | unknown kind key => s!"unknown option '{key}' for connector '{kind}'"
  | invalidValue kind key reason =>
      s!"invalid value for option '{key}' of connector '{kind}': {reason.message}"

/-- The name of the kind of an error. -/
def kindName : OptionsError → String
  | missingRequired .. => "missing_required_option"
  | invalidType .. => "invalid_option_type"
  | unknown .. => "unknown_option"
  | invalidValue .. => "invalid_value"

/-- The key that the error is about. -/
def key : OptionsError → String
  | missingRequired _ key => key
  | invalidType _ key _ _ => key
  | unknown _ key => key
  | invalidValue _ key _ => key

end OptionsError

end BatchTransfer
