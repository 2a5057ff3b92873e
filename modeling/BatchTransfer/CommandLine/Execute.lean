import BatchTransfer.CommandLine.Description
import BatchTransfer.CommandLine.Request
import BatchTransfer.Config.Reader
import BatchTransfer.Job.Run

/-!
# Executing requests

A request is carried out on a host. What is printed and the exit code depend on the arguments, the
environment and the host only.
-/

namespace BatchTransfer.CommandLine

/-- Why a request cannot be carried out: what was tried, and what went wrong from the outside in. -/
structure Failure where
  summary : String
  causes : List String
  deriving DecidableEq, Repr

/-- The lines of a text behind the first one, each behind a margin. -/
def indentLines (margin text : String) : String := ("\n" ++ margin).intercalate (text.splitOn "\n")

/-- The failure as it is printed. Several causes are numbered from zero. -/
def Failure.text (f : Failure) : String :=
  let shown :=
    match f.causes with
    | [] => ""
    | [cause] => "\n\nCaused by:\n    " ++ indentLines "    " cause
    | causes =>
        "\n\nCaused by:" ++ String.join (causes.zipIdx.map fun ((cause, i) : String × Nat) =>
          let number := toString i
          "\n" ++ String.ofList (List.replicate (5 - number.length) ' ') ++ number ++ ": " ++
            indentLines "       " cause)
  s!"Error: {f.summary}{shown}\n"

/-- What the program leaves to its caller. -/
structure Outcome where
  exitCode : UInt32
  output : String
  errors : String
  deriving DecidableEq, Repr

/-- The release of the program. -/
def version : String := "0.1.0"

/-- How the program is called. -/
def usage : String :=
  "Usage: datatunnel [OPTIONS] <COMMAND>\n\nCommands: " ++ ", ".intercalate commandNames ++ "\n"

/-- The text of a statement. -/
def StatementOrigin.load (files : FileTree) : StatementOrigin → Except Failure String
  | argument text => .ok text
  | file path =>
      match files.readText path with
      | .ok text => .ok text
      | .error e => .error ⟨s!"Failed to read statement from {path}", [e.message]⟩
  | nowhere => .error ⟨"Provide a statement with -e or a file with -f", []⟩

/-- Reads the file of a configuration. -/
def loadConfig (env : Environment) (files : FileTree) (path : String) : Except ConfigFault Config :=
  match files.readText path with
  | .ok text => Config.read env text
  | .error e => .error (.unreadable path e.message)

namespace Request

/-- The configuration of a request. -/
def loadConfig (r : Request) (env : Environment) (files : FileTree) : Except Failure Config :=
  match r.config with
  | none => .ok {}
  | some path =>
      match CommandLine.loadConfig env files path with
      | .ok c => .ok c
      | .error e => .error ⟨s!"Failed to load config from {path}", (JobError.config e).messages⟩

end Request

/-- A JSON value on lines of its own. -/
def jsonLines (j : Json) : String := j.indented ++ "\n"

/-- The kinds of connectors on one side, each on a line. -/
def kindLines (registry : ConnectorRegistry) (role : Role) : String :=
  String.join ((registry.kinds role).map fun kind => s!"  {kind}\n")

/-- The plan of a statement, with the values that must not be shown replaced. -/
def showPlan (registry : ConnectorRegistry) (text : String) : Except Failure String :=
  match Statement.parse text with
  | .error e => .error ⟨"Invalid statement", [e.message]⟩
  | .ok plan =>
      let plan := registry.redact plan
      .ok (plan.display ++ "\n" ++ jsonLines plan.toJson)

/-- The description of a kind on the sides on which it is known. -/
def describe (registry : ConnectorRegistry) (kind : String) (roles : List Role)
    (form : DescriptionForm) : Except Failure String :=
  let known := roles.filterMap fun role => (registry.schema? role kind).map (role, ·)
  if known.isEmpty then
    .error ⟨s!"Unknown connector kind: '{kind}'\nUse 'datatunnel connectors' to list available kinds",
      []⟩
  else
    match form with
    | .json => .ok (jsonLines (.array (known.map fun (role, schema) => schemaJson role schema)))
    | .table => .ok (String.join (known.map fun (role, schema) => optionTable role schema))

/-- Runs a statement on a host. -/
def runStatement (h : Host) (registry : ConnectorRegistry) (config : Config) (text : String) :
    Host × Except Failure String :=
  let done := h.runStatement registry config.jobSettings text {}
  match done.result with
  | .ok report => (done.host, .ok (jsonLines report.toJson))
  | .error e => (done.host, .error ⟨"Tunnel job failed", e.messages⟩)

/-- Carries out a command. -/
def Command.perform (h : Host) (config : Config) (c : Command) : Host × Except Failure String :=
  let registry := ConnectorRegistry.builtIn.withPolicy config.unknownOptions
  match c with
  | run statement =>
      match statement.load h.files with
      | .ok text => runStatement h registry config text
      | .error e => (h, .error e)
  | parse statement =>
      match statement.load h.files with
      | .ok text => (h, showPlan registry text)
      | .error e => (h, .error e)
  | connectors =>
      (h, .ok ("Sources:\n" ++ kindLines registry .source ++ "\nSinks:\n" ++
        kindLines registry .sink))
  | describe kind roles form => (h, CommandLine.describe registry kind roles form)

/-- Carries out a request. -/
def Request.perform (env : Environment) (h : Host) (r : Request) : Host × Except Failure String :=
  match r.loadConfig env h.files with
  | .ok config => r.command.perform h config
  | .error e => (h, .error e)

/-- What the program prints when its arguments are not read to their end. -/
def Halt.outcome : Halt → Outcome
  | misuse => ⟨2, "", CommandLine.usage⟩
  | usage => ⟨0, CommandLine.usage, ""⟩
  | version => ⟨0, s!"datatunnel {CommandLine.version}\n", ""⟩

/-- Executes the program. -/
def execute (env : Environment) (h : Host) (args : List String) : Host × Outcome :=
  match Request.read args with
  | .error halt => (h, halt.outcome)
  | .ok request =>
      match request.perform env h with
      | (h, .ok output) => (h, ⟨0, output, ""⟩)
      | (h, .error failure) => (h, ⟨1, "", failure.text⟩)

end BatchTransfer.CommandLine
