import BatchTransfer.Json.Printer
import BatchTransfer.Options.Schema
import BatchTransfer.Statement.Plan

/-!
# Descriptions of connectors

The options of a kind of connector are described in a table or in JSON, for either side on which the
kind is known.
-/

namespace BatchTransfer.CommandLine

/-- The text with blanks behind it up to a width. -/
def padEnd (width : Nat) (s : String) : String :=
  s ++ String.ofList (List.replicate (width - s.length) ' ')

/-- What a table says of an option beside its description. -/
def notes (spec : OptionSpec) : List String :=
  (if spec.isRequired then ["required"] else []) ++
    (spec.default?.map fun v => s!"default {v.display}").toList ++
    (if spec.sensitive then ["sensitive"] else []) ++
    (if spec.aliases.isEmpty then [] else ["alias " ++ ", ".intercalate spec.aliases])

/-- The line of an option in a table whose keys have a width. -/
def optionLine (width : Nat) (spec : OptionSpec) : String :=
  let remarks := if (notes spec).isEmpty then "" else " (" ++ "; ".intercalate (notes spec) ++ ")"
  "  " ++ padEnd width spec.key ++ "  " ++ padEnd 16 spec.type.display ++ "  " ++
    spec.description ++ remarks ++ "\n"

/-- The table of a kind on one side, with an empty line behind it. -/
def optionTable (role : Role) (schema : OptionSchema) : String :=
  let width := (schema.specs.map (·.key.utf8ByteSize)).foldl max 0
  s!"{role.keyword} {schema.kind}\n" ++ String.join (schema.specs.map (optionLine width)) ++ "\n"

/-- An option in JSON. -/
def optionJson (spec : OptionSpec) : Json :=
  .object [("key", .string spec.key), ("type", .string spec.type.display),
    ("required", .bool spec.isRequired),
    ("default", spec.default?.elim .null OptionValue.toJson),
    ("sensitive", .bool spec.sensitive),
    ("aliases", .array (spec.aliases.map .string)), ("description", .string spec.description)]

/-- A kind on one side in JSON. -/
def schemaJson (role : Role) (schema : OptionSchema) : Json :=
  .object [("kind", .string schema.kind), ("role", .string role.name),
    ("options", .array (schema.specs.map optionJson))]

end BatchTransfer.CommandLine
