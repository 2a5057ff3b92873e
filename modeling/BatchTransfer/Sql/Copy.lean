import BatchTransfer.Secret
import BatchTransfer.Sql.Quoted

/-!
# Loading staged files with SQL

The statements that a cluster runs to publish staged files: one copies the files that a manifest
lists into a table, and one empties the table before. Names stand between double quotes and texts
between single quotes.
-/

namespace BatchTransfer.Sql

/-- A name between double quotes. -/
def identifier (name : String) : List Char := quoted '"' name.toList

/-- A text between single quotes. -/
def literal (text : String) : List Char := quoted '\'' text.toList

/-- How the cluster is allowed to read the staged files. -/
inductive CopyCredentials where
  | role (name : String)
  | keys (accessKey secretKey : Secret)
  deriving DecidableEq, Repr

/-- The credentials as a clause. -/
def CopyCredentials.chars : CopyCredentials → List Char
  | role name => "IAM_ROLE ".toList ++ literal name
  | keys accessKey secretKey =>
      "ACCESS_KEY_ID ".toList ++ literal accessKey.exposed ++ " SECRET_ACCESS_KEY ".toList ++
        literal secretKey.exposed

/-- The columns that are loaded; without a list, those of the files. -/
def columnList : Option (List String) → List Char
  | none => []
  | some names => " (".toList ++ commaSeparated (names.map identifier) ++ [')']

/-- A schema and a table. -/
def qualified (schema table : String) : List Char :=
  identifier schema ++ '.' :: identifier table

/-- The statement that copies the files of a manifest into a table. -/
def copyChars (schema table : String) (columns : Option (List String)) (manifest : String)
    (credentials : CopyCredentials) (region : String) : List Char :=
  "COPY ".toList ++ qualified schema table ++ columnList columns ++ " FROM ".toList ++
    literal manifest ++ ' ' :: credentials.chars ++
    " FORMAT AS JSON 'auto' MANIFEST REGION ".toList ++ literal region

/-- The statement that copies the files of a manifest into a table. -/
def copy (schema table : String) (columns : Option (List String)) (manifest : String)
    (credentials : CopyCredentials) (region : String) : String :=
  String.ofList (copyChars schema table columns manifest credentials region)

/-- The statement that empties a table. -/
def deleteChars (schema table : String) : List Char :=
  "DELETE FROM ".toList ++ qualified schema table

/-- The statement that empties a table. -/
def delete (schema table : String) : String := String.ofList (deleteChars schema table)

end BatchTransfer.Sql
