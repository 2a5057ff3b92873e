import BatchTransfer.Job.Error
import BatchTransfer.Options.Schema
import BatchTransfer.RunId
import BatchTransfer.Statement.Plan

/-!
# Registries of connectors

A registry knows for either side the kinds of connectors, the options that each takes, and how one
is made from valid options. Registering a kind again replaces it.
-/

namespace BatchTransfer

/-- How connectors of one kind are made. Every one belongs to a run. -/
structure Maker (α : Type) where
  schema : OptionSchema
  create : RunId → ValidOptions → Except OptionsError α

/-- Makers by kind, for sources of type `σ` and sinks of type `τ`, and what to do with options that
a kind does not declare. -/
structure Registry (σ τ : Type) where
  sources : KeyMap (Maker σ)
  sinks : KeyMap (Maker τ)
  unknownOptions : UnknownOptionPolicy

namespace Registry

variable {σ τ : Type}

/-- The registry without connectors. -/
def empty : Registry σ τ := ⟨.empty, .empty, .reject⟩

/-- Sets what to do with options that a kind does not declare. -/
def withPolicy (r : Registry σ τ) (policy : UnknownOptionPolicy) : Registry σ τ :=
  { r with unknownOptions := policy }

/-- Registers a kind of source. -/
def addSource (r : Registry σ τ) (kind : String) (maker : Maker σ) : Registry σ τ :=
  { r with sources := r.sources.insert kind maker }

/-- Registers a kind of sink. -/
def addSink (r : Registry σ τ) (kind : String) (maker : Maker τ) : Registry σ τ :=
  { r with sinks := r.sinks.insert kind maker }

/-- The options of a kind on one side. -/
def schema? (r : Registry σ τ) (role : Role) (kind : String) : Option OptionSchema :=
  match role with
  | .source => (r.sources.get? kind).map Maker.schema
  | .sink => (r.sinks.get? kind).map Maker.schema

/-- The kinds on one side in ascending order. -/
def kinds (r : Registry σ τ) : Role → List String
  | .source => r.sources.keys
  | .sink => r.sinks.keys

/-- The connector that a maker makes from options as they are written. -/
def make {α : Type} (role : Role) (makers : KeyMap (Maker α)) (policy : UnknownOptionPolicy)
    (run : RunId) (kind : String) (options : OptionMap) : JobResult α :=
  match makers.get? kind with
  | none => .error (.unknownKind role kind)
  | some maker =>
      match maker.schema.validate options policy with
      | .error e => .error (.options e)
      | .ok valid =>
          match maker.create run valid with
          | .error e => .error (.options e)
          | .ok connector => .ok connector

/-- The source that options ask for. -/
def makeSource (r : Registry σ τ) (run : RunId) (kind : String) (options : OptionMap) :
    JobResult σ :=
  make .source r.sources r.unknownOptions run kind options

/-- The sink that options ask for. -/
def makeSink (r : Registry σ τ) (run : RunId) (kind : String) (options : OptionMap) :
    JobResult τ :=
  make .sink r.sinks r.unknownOptions run kind options

/-- The options of one side with the values that must not be shown replaced. Those of a kind that is
not registered stay as they are written. -/
def redactOptions (r : Registry σ τ) (role : Role) (e : Endpoint) : OptionMap :=
  match r.schema? role e.kind with
  | some schema => schema.redact e.options
  | none => e.options

/-- The plan with the values that must not be shown replaced. -/
def redact (r : Registry σ τ) (p : Plan) : Plan := p.mapOptions r.redactOptions

end Registry

end BatchTransfer
