import BatchTransfer.Connector.Settings
import BatchTransfer.Sql.Copy
import BatchTransfer.Sql.Select
import BatchTransfer.Staging.Sink

/-!
# Connectors to servers

A database server can be a source, and a cluster that loads staged files a sink. What their options
must say, and the statements that they run, do not depend on any server.
-/

namespace BatchTransfer

open BatchTransfer.Decimal

/-- The port numbers. -/
def portRange : Range := ⟨1, 65535⟩

/-- A table of a database server as source. -/
structure DatabaseSource where
  query : String
  batchSize : Nat

namespace DatabaseSource

/-- The options of the source. -/
def schema : OptionSchema :=
  ((((OptionSchema.new "mysql").required "host" .string "Server hostname").withDefault
      "port" .integer (.integer 3306) "Server port").required
      "username" .string "Database user" |>.withAlias "user").required
      "password" .string "Database password" |>.sensitive
  |>.required "databaseName" .string "Database name" |>.withAlias "database"
  |>.required "tableName" .string "Table to read" |>.withAlias "dbtable"
  |>.optional "condition" .string "SQL predicate to filter rows"
  |>.withDefault "fetchSize" .integer (.integer 1000) "Rows per batch"
  |>.withColumns

/-- The settings of the source. -/
def settings : Settings :=
  ⟨[⟨"port", .word16, portRange⟩, ⟨"fetchSize", .size, ⟨1, 100000⟩⟩],
    [⟨"host", 1, some 255⟩, nonEmptySetting "username", nonEmptySetting "databaseName",
      nonEmptySetting "tableName"]⟩

/-- The source that options ask for. -/
def create (o : ValidOptions) : Except OptionsError DatabaseSource := do
  settings.check o
  return ⟨Sql.select (o.text "tableName") (← o.projection) (o.string? "condition"),
    o.natural "fetchSize"⟩

end DatabaseSource

/-- A cluster that loads staged files as sink. -/
structure ClusterSink where
  staging : Staging.Location
  credentials : Sql.CopyCredentials
  projection : Projection

namespace ClusterSink

/-- The options of the sink. -/
def schema : OptionSchema :=
  (OptionSchema.new "redshift").required "host" .string "Cluster endpoint hostname"
  |>.withDefault "port" .integer (.integer 5439) "Cluster port"
  |>.required "databaseName" .string "Database name" |>.withAlias "database"
  |>.required "username" .string "Database user" |>.withAlias "user"
  |>.required "password" .string "Database password" |>.sensitive
  |>.withDefault "schemaName" .string (.string "public") "Target schema"
  |>.required "tableName" .string "Target table" |>.withAlias "dbtable"
  |>.required "tempdir" .string "S3 staging URL (s3:// or s3a://)"
  |>.withDefault "region" .string (.string "us-east-1") "AWS region"
  |>.optional "accessKeyId" .string "AWS access key id" |>.sensitive
  |>.optional "secretAccessKey" .string "AWS secret access key" |>.sensitive
  |>.optional "s3Endpoint" .string "Custom S3 endpoint"
  |>.optional "redshiftRoleArn" .string "IAM role used by COPY" |>.withAlias "roleArn"
  |>.withDefault "sslMode" (.oneOf ["disable", "require"]) (.string "require") "TLS mode"
  |>.withDefault "saveMode" (.oneOf [SaveMode.append.name, SaveMode.overwrite.name])
    (.string SaveMode.append.name) "Append to or replace the table on commit"
  |>.withDefault "keepStaging" .boolean (.boolean false) "Keep staged parts after the job"
  |>.withDefault "connectTimeoutSecs" .integer (.integer 30) "Connection timeout in seconds"
  |>.withColumns

/-- The settings of the sink. -/
def settings : Settings :=
  ⟨[⟨"port", .word16, portRange⟩, ⟨"connectTimeoutSecs", .word64, ⟨1, 300⟩⟩],
    [⟨"host", 1, some 255⟩, ⟨"databaseName", 1, some 127⟩, ⟨"username", 1, some 128⟩,
      ⟨"schemaName", 1, some 127⟩, ⟨"tableName", 1, some 127⟩]⟩

/-- The credentials that options name: a role, or a pair of keys. -/
def credentialsOf? (o : ValidOptions) : Option Sql.CopyCredentials :=
  match o.string? "redshiftRoleArn", o.string? "accessKeyId", o.string? "secretAccessKey" with
  | some role, _, _ => some (.role role)
  | none, some accessKey, some secretKey => some (.keys ⟨accessKey⟩ ⟨secretKey⟩)
  | _, _, _ => none

/-- The sink that options ask for. -/
def create (o : ValidOptions) : Except OptionsError ClusterSink := do
  settings.check o
  let location ← Staging.locationOption o
  match location with
  | .bucket .. =>
      match credentialsOf? o with
      | none => throw (o.invalid "redshiftRoleArn" .noCredentials)
      | some credentials => return ⟨location, credentials, ← o.projection⟩
  | _ => throw (o.invalid "tempdir" .clusterNeedsBucket)

end ClusterSink

end BatchTransfer
