import BatchTransfer.CommandLine.Execute

/-!
# Paths and variables that a request needs

A request reads the file of a configuration and that of a statement; a statement that is run reads
and writes under the paths among its options. Whoever executes the program supplies what stands
under these paths, and the variables to which the configuration refers.
-/

namespace BatchTransfer.CommandLine

/-- The file from which a statement is read. -/
def StatementOrigin.paths : StatementOrigin → List String
  | file path => [path]
  | _ => []

/-- Where the statement of a command comes from, if it has one. -/
def Command.origin : Command → StatementOrigin
  | run statement => statement
  | parse statement => statement
  | _ => .nowhere

/-- The paths at which a connector reads and writes. -/
def endpointPaths (e : Endpoint) : List String :=
  let texts (key : String) : List String := ((e.options.get? key).bind OptionValue.string?).toList
  texts "path" ++ (texts "tempdir").filterMap fun text =>
    match Staging.Location.read text with
    | .ok (.directory root) => some root
    | _ => none

/-- The paths at which the connectors of a command read and write. -/
def Command.dataPaths (files : FileTree) : Command → List String
  | run statement =>
      match (statement.load files).toOption.bind fun text => (Statement.parse text).toOption with
      | some plan => endpointPaths plan.source ++ endpointPaths plan.sink
      | none => []
  | _ => []

namespace Request

/-- The files that are read before a statement is known. -/
def paths (r : Request) : List String := r.config.toList ++ r.command.origin.paths

/-- The variables to which the configuration refers. -/
def neededVariables (r : Request) (files : FileTree) : List String :=
  match r.config.map files.readText with
  | some (.ok text) =>
      (pieces text.toList).filterMap fun piece =>
        match piece with
        | .reference reference => some (String.ofList reference.name)
        | .char _ => none
  | _ => []

end Request

end BatchTransfer.CommandLine
