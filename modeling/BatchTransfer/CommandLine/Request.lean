import BatchTransfer.CommandLine.Arguments
import BatchTransfer.Statement.Plan

/-!
# Requests

A request is what the arguments of the program ask for: a command, and the file of a configuration
for it.
-/

namespace BatchTransfer.CommandLine

/-- Where a statement comes from. -/
inductive StatementOrigin where
  | argument (text : String)
  | file (path : String)
  | nowhere
  deriving DecidableEq, Repr, Inhabited

/-- The form in which the options of connectors are described. -/
inductive DescriptionForm where
  | table
  | json
  deriving DecidableEq, Repr, Inhabited

/-- A command. -/
inductive Command where
  | run (statement : StatementOrigin)
  | parse (statement : StatementOrigin)
  | connectors
  | describe (kind : String) (roles : List Role) (form : DescriptionForm)
  deriving DecidableEq, Repr, Inhabited

/-- A command and the file of its configuration. -/
structure Request where
  config : Option String
  command : Command
  deriving DecidableEq, Repr, Inhabited

/-- The options before a command. -/
def generalForms : List OptionForm :=
  [⟨some 'c', "config", .value false⟩, ⟨some 'v', "verbose", .nothing⟩, usageForm,
    ⟨some 'V', "version", .version⟩]

/-- The options that give a statement. -/
def statementForms : List OptionForm :=
  [⟨some 'e', "execute", .value true⟩, ⟨some 'f', "file", .value false⟩, usageForm]

/-- The options of a description. -/
def describeForms : List OptionForm :=
  [⟨none, "role", .value true⟩, ⟨none, "format", .value true⟩, usageForm]

/-- Reads where a statement comes from; it comes from one place at most. -/
def readOrigin (args : List String) : Except Halt StatementOrigin := do
  let (a, _) ← readArguments statementForms false default args
  if !a.words.isEmpty then .error .misuse
  else
    match a.value? "execute", a.value? "file" with
    | some _, some _ => .error .misuse
    | some text, none => .ok (.argument text)
    | none, some path => .ok (.file path)
    | none, none => .ok .nowhere

/-- The sides that a description is limited to. -/
def rolesOf : Option String → Except Halt (List Role)
  | none => .ok [.source, .sink]
  | some name =>
      match [Role.source, Role.sink].find? (·.name == name) with
      | some role => .ok [role]
      | none => .error .misuse

/-- Reads what is to be described. Every form but JSON is that of a table. -/
def readDescribe (args : List String) : Except Halt Command := do
  let (a, _) ← readArguments describeForms false default args
  let roles ← rolesOf (a.value? "role")
  match a.words with
  | [kind] => .ok (.describe kind roles (if a.value? "format" == some "json" then .json else .table))
  | _ => .error .misuse

/-- The names of the commands. -/
def commandNames : List String := ["run", "parse", "connectors", "describe", "help"]

/-- Reads a command from its name and its arguments. -/
def readCommand (name : String) (args : List String) : Except Halt Command :=
  match name with
  | "run" => (readOrigin args).map .run
  | "parse" => (readOrigin args).map .parse
  | "connectors" => do
      let (a, _) ← readArguments [usageForm] false default args
      if a.words.isEmpty then .ok .connectors else .error .misuse
  | "describe" => readDescribe args
  | "help" => .error (if args.all commandNames.contains then .usage else .misuse)
  | _ => .error .misuse

/-- Reads the arguments of the program. -/
def Request.read (args : List String) : Except Halt Request := do
  let (a, rest) ← readArguments generalForms true default args
  match rest with
  | name :: args => .ok ⟨a.value? "config", ← readCommand name args⟩
  | [] => .error .misuse

end BatchTransfer.CommandLine
