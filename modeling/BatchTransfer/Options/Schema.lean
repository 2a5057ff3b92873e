import BatchTransfer.Options.Error
import BatchTransfer.Options.Type
import BatchTransfer.Secret

/-!
# Option schemas

A connector kind declares its options in a schema. `OptionSchema.validate` checks the options of a
statement against it: keys are visited in ascending order, so the first fault in that order is the
one reported, and required keys are asked for only when every given key has passed. The outcome
holds each option under its declared key, brought to its declared type, with defaults filled in.
-/

namespace BatchTransfer

/-- What to do with a key that the schema does not declare. -/
inductive UnknownOptionPolicy where
  | reject
  | warn
  deriving DecidableEq, Repr, Inhabited

/-- The name of a policy. -/
def UnknownOptionPolicy.name : UnknownOptionPolicy → String
  | reject => "reject"
  | warn => "warn"

/-- The policy of a name. -/
def UnknownOptionPolicy.ofName? (s : String) : Option UnknownOptionPolicy :=
  [reject, warn].find? (·.name == s)

/-- What holds for an option that a statement leaves out. -/
inductive Presence where
  | required
  | optional
  | default (value : OptionValue)
  deriving Inhabited

/-- The declaration of one option. -/
structure OptionSpec where
  key : String
  type : OptionType
  presence : Presence
  sensitive : Bool
  aliases : List String
  description : String

namespace OptionSpec

/-- Whether the option may be written under the key. -/
def matchesKey (spec : OptionSpec) (key : String) : Bool :=
  spec.key == key || spec.aliases.contains key

/-- Whether the option must be given. -/
def isRequired (spec : OptionSpec) : Bool :=
  match spec.presence with
  | .required => true
  | _ => false

/-- The value taken where the option is left out. -/
def default? (spec : OptionSpec) : Option OptionValue :=
  match spec.presence with
  | .default v => some v
  | _ => none

end OptionSpec

/-- The options that a connector kind declares, in order of declaration. -/
structure OptionSchema where
  kind : String
  specs : List OptionSpec

/-- The key of the option that names the columns to keep. -/
def columnsKey : String := "columns"

namespace OptionSchema

/-- The schema of a kind without options. -/
def new (kind : String) : OptionSchema := ⟨kind, []⟩

/-- Declares one more option. -/
def declare (s : OptionSchema) (key : String) (type : OptionType) (presence : Presence)
    (description : String) : OptionSchema :=
  { s with specs := s.specs ++ [⟨key, type, presence, false, [], description⟩] }

/-- Declares an option that must be given. -/
def required (s : OptionSchema) (key : String) (type : OptionType) (description : String) :
    OptionSchema :=
  s.declare key type .required description

/-- Declares an option that may be left out. -/
def optional (s : OptionSchema) (key : String) (type : OptionType) (description : String) :
    OptionSchema :=
  s.declare key type .optional description

/-- Declares an option with a default. -/
def withDefault (s : OptionSchema) (key : String) (type : OptionType) (value : OptionValue)
    (description : String) : OptionSchema :=
  s.declare key type (.default value) description

/-- Declares the option that names the columns to keep, by default all of them. -/
def withColumns (s : OptionSchema) : OptionSchema :=
  s.withDefault columnsKey .stringList (.strings [Projection.star])
    "Column projection and order; [\"*\"] keeps every column"

/-- Changes the option declared last, if there is one. -/
def changeLast (s : OptionSchema) (f : OptionSpec → OptionSpec) : OptionSchema :=
  match s.specs.reverse with
  | [] => s
  | last :: others => { s with specs := (f last :: others).reverse }

/-- Marks the option declared last as one whose value must not be shown. -/
def sensitive (s : OptionSchema) : OptionSchema :=
  s.changeLast fun spec => { spec with sensitive := true }

/-- Lets the option declared last be written under another key as well. -/
def withAlias (s : OptionSchema) (key : String) : OptionSchema :=
  s.changeLast fun spec => { spec with aliases := spec.aliases ++ [key] }

/-- The option that is written under a key: the first one declared that has it as its key or among
its other keys. -/
def resolve? (s : OptionSchema) (key : String) : Option OptionSpec :=
  s.specs.find? (·.matchesKey key)

/-- Whether the value under a key must not be shown. -/
def isSensitive (s : OptionSchema) (key : String) : Bool :=
  match s.resolve? key with
  | some spec => spec.sensitive
  | none => false

end OptionSchema

/-- Options that have passed validation for a connector kind. -/
structure ValidOptions where
  kind : String
  values : OptionMap

namespace ValidOptions

/-- The value under a key. -/
def get? (o : ValidOptions) (key : String) : Option OptionValue := o.values.get? key

/-- The text under a key. -/
def string? (o : ValidOptions) (key : String) : Option String :=
  (o.get? key).bind OptionValue.string?

/-- The whole number under a key. -/
def integer? (o : ValidOptions) (key : String) : Option Int :=
  (o.get? key).bind OptionValue.integer?

/-- The truth value under a key. -/
def boolean? (o : ValidOptions) (key : String) : Option Bool :=
  (o.get? key).bind OptionValue.boolean?

/-- The list of texts under a key. -/
def strings? (o : ValidOptions) (key : String) : Option (List String) :=
  (o.get? key).bind OptionValue.strings?

/-- An error about the value under a key. -/
def invalid (o : ValidOptions) (key : String) (reason : InvalidReason) : OptionsError :=
  .invalidValue o.kind key reason

/-- The columns to keep; without the option all of them. -/
def projection (o : ValidOptions) : Except OptionsError Projection :=
  match o.strings? columnsKey with
  | none => .ok .all
  | some names =>
      match Projection.ofList names with
      | .ok p => .ok p
      | .error e => .error (o.invalid columnsKey (.projection e))

end ValidOptions

/-- The part of a statement's options that has been checked: the values by declared key, and for
each declared key the key under which it was written. -/
structure CheckedOptions where
  values : OptionMap
  writtenAs : KeyMap String
  deriving Inhabited

namespace OptionSchema

/-- The description of a rejected value, which shows a sensitive one by its type only. -/
def describeFound (spec : OptionSpec) (v : OptionValue) : String :=
  if spec.sensitive then v.typeName else s!"{v.typeName} {v.display}"

/-- Checks one option of a statement. -/
def checkOption (s : OptionSchema) (policy : UnknownOptionPolicy) (checked : CheckedOptions)
    (key : String) (value : OptionValue) : Except OptionsError CheckedOptions :=
  match s.resolve? key with
  | none =>
      match policy with
      | .reject => .error (.unknown s.kind key)
      | .warn => .ok checked
  | some spec =>
      match checked.writtenAs.get? spec.key with
      | some earlier => .error (.invalidValue s.kind spec.key (.setTwice earlier key))
      | none =>
          match spec.type.coerce value with
          | none =>
              .error (.invalidType s.kind key spec.type.display (describeFound spec value))
          | some coerced =>
              .ok ⟨checked.values.insert spec.key coerced, checked.writtenAs.insert spec.key key⟩

/-- Checks the options of a statement one after the other. -/
def checkOptions (s : OptionSchema) (policy : UnknownOptionPolicy) (checked : CheckedOptions) :
    List (String × OptionValue) → Except OptionsError CheckedOptions
  | [] => .ok checked
  | (key, value) :: rest =>
      match s.checkOption policy checked key value with
      | .error e => .error e
      | .ok checked => checkOptions s policy checked rest

/-- Fills in the defaults of the declared options that have no value yet, and asks for the
required ones. -/
def fillDefaults (kind : String) (values : OptionMap) :
    List OptionSpec → Except OptionsError OptionMap
  | [] => .ok values
  | spec :: rest =>
      if values.contains spec.key then fillDefaults kind values rest
      else
        match spec.presence with
        | .default v => fillDefaults kind (values.insert spec.key v) rest
        | .required => .error (.missingRequired kind spec.key)
        | .optional => fillDefaults kind values rest

/-- Checks the options of a statement against the schema. -/
def validate (s : OptionSchema) (options : OptionMap) (policy : UnknownOptionPolicy) :
    Except OptionsError ValidOptions :=
  match s.checkOptions policy default options.entries with
  | .error e => .error e
  | .ok checked =>
      match fillDefaults s.kind checked.values s.specs with
      | .error e => .error e
      | .ok values => .ok ⟨s.kind, values⟩

/-- The options with the values that must not be shown replaced. -/
def redact (s : OptionSchema) (options : OptionMap) : OptionMap :=
  options.map fun key value => if s.isSensitive key then .string redactedText else value

end OptionSchema

end BatchTransfer
