import BatchTransfer.Options.Value

/-!
# Transfer plans

A plan says what a statement asks for: a source, a sink, their options, and the name under which
the result is published. `Plan.display` is the canonical statement of a plan: keywords in upper
case, options in the order of their keys, and the result table last on the source side.
-/

namespace BatchTransfer

/-- The side of a transfer on which a connector stands. -/
inductive Role where
  | source
  | sink
  deriving DecidableEq, Repr, Inhabited

namespace Role

/-- The keyword that begins the clause of a side. -/
def keyword : Role → String
  | source => "SOURCE"
  | sink => "SINK"

/-- The side in words. -/
def name : Role → String
  | source => "source"
  | sink => "sink"

end Role

/-- The key of the source option that names the result table. -/
def resultTableKey : String := "resultTableName"

/-- One side of a plan: a connector kind and the options as written. -/
structure Endpoint where
  kind : String
  options : OptionMap
  deriving Inhabited

/-- One transfer from a source to a sink. -/
structure Plan where
  source : Endpoint
  sink : Endpoint
  resultTable : Option String
  deriving Inhabited

namespace Endpoint

/-- The options as they are written between parentheses. -/
def entryChars (entry : String × OptionValue) : List Char :=
  entry.1.toList ++ '=' :: entry.2.chars

/-- The clause of a side, with further entries behind its options. -/
def clauseChars (role : Role) (e : Endpoint) (more : List (String × OptionValue)) : List Char :=
  role.keyword.toList ++ '(' :: (OptionValue.string e.kind).chars ++ ") OPTIONS(".toList ++
    [',', ' '].intercalate ((e.options.entries ++ more).map entryChars) ++ [')']

/-- One side in JSON. -/
def toJson (role : Role) (e : Endpoint) : Json :=
  .object [("role", .string role.name), ("kind", .string e.kind), ("options", e.options.toJson)]

/-- Equality of one side, with options compared by value. -/
def equal (a b : Endpoint) : Bool := a.kind == b.kind && OptionMap.equal a.options b.options

end Endpoint

namespace Plan

/-- The side of a plan. -/
def endpoint (p : Plan) : Role → Endpoint
  | .source => p.source
  | .sink => p.sink

/-- The result table as an entry of the source options. -/
def resultEntry (p : Plan) : List (String × OptionValue) :=
  match p.resultTable with
  | some name => [(resultTableKey, .string name)]
  | none => []

/-- The canonical statement of the plan. -/
def chars (p : Plan) : List Char :=
  "DATATUNNEL ".toList ++ p.source.clauseChars .source p.resultEntry ++
    ' ' :: p.sink.clauseChars .sink []

/-- The canonical statement of the plan. -/
def display (p : Plan) : String := String.ofList p.chars

/-- The plan in JSON. -/
def toJson (p : Plan) : Json :=
  .object ([("source", p.source.toJson .source), ("sink", p.sink.toJson .sink)] ++
    match p.resultTable with
    | some name => [("resultTableName", .string name)]
    | none => [])

/-- Equality of plans, with options compared by value. -/
def equal (a b : Plan) : Bool :=
  a.source.equal b.source && a.sink.equal b.sink && a.resultTable == b.resultTable

/-- The plan with the options of both sides replaced by a function of role and side. -/
def mapOptions (p : Plan) (f : Role → Endpoint → OptionMap) : Plan :=
  { p with
    source := { p.source with options := f .source p.source }
    sink := { p.sink with options := f .sink p.sink } }

end Plan

end BatchTransfer
