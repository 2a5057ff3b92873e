import BatchTransfer.Batch.Csv
import BatchTransfer.Connector.Call
import BatchTransfer.Connector.Lines
import BatchTransfer.Connector.Settings
import BatchTransfer.Host.Basic

/-!
# Files as source and sink

The source reads lines of JSON from one file, or from the data files of a directory in the order of
their names. The sink writes one part a batch into a directory and an empty marker on commit; the
name of a part begins with its number, so parts are read back in the order of writing.
-/

namespace BatchTransfer

open BatchTransfer.Decimal

/-- The failure that a fault of the file system is. -/
def FileFault.error (f : FileFault) : ConnectorError := ⟨.io, f.message⟩

/-- The records of a text that one file holds. -/
def FileTree.readRecords (t : FileTree) (path : String) : ConnectorResult (List Record) :=
  match t.readText path with
  | .error e => .error e.error
  | .ok text =>
      match Lines.records text with
      | .ok records => .ok records
      | .error _ => .error ⟨.json, ""⟩

/-- A source of lines of JSON. The files to read are known once it is opened. -/
structure FileSource where
  path : String
  batchSize : Nat
  projection : Projection
  files : List String
  deriving Inhabited

namespace FileSource

/-- The options of the source. -/
def schema : OptionSchema :=
  ((OptionSchema.new "file").required "path" .string "JSON lines file or directory to read").withDefault
    "batchSize" .integer (.integer 1000) "Rows per batch"
  |>.withColumns

/-- The source that options ask for. -/
def create (o : ValidOptions) : Except OptionsError FileSource := do
  Settings.check ⟨[batchSizeSetting], [nonEmptySetting "path"]⟩ o
  return ⟨o.text "path", o.natural "batchSize", ← o.projection, []⟩

/-- The endings of data files. -/
def endings : List String := [".json", ".jsonl"]

/-- Whether a name is that of a data file: it has one of the endings and begins neither with a
point nor with an underscore. -/
def isDataFile (name : String) : Bool :=
  match name.toList with
  | '.' :: _ => false
  | '_' :: _ => false
  | cs => endings.any fun ending => ending.toList.isSuffixOf cs

/-- A path and a name below it. -/
def joined (path name : String) : String :=
  if path.toList.getLast? == some '/' then path ++ name else path ++ "/" ++ name

/-- The files that the source would read now. -/
def inputs (s : FileSource) (t : FileTree) : ConnectorResult (List String) :=
  match t.find s.path with
  | .error _ => .error ⟨.notFound, s!"input path '{s.path}'"⟩
  | .ok (_, .file _) => .ok [s.path]
  | .ok (directory, .directory) =>
      .ok (((t.fileNames directory).filter isDataFile).map (joined s.path))

/-- Opens the source, which looks up the files to read. -/
def openFiles (s : FileSource) (t : FileTree) : FileSource × ConnectorResult Unit :=
  match s.inputs t with
  | .ok files => ({ s with files }, .ok ())
  | .error e => (s, .error e)

/-- The error about a line of a file that holds no record. -/
def lineError (path : String) (number : Nat) : Lines.LineFault → ConnectorError
  | .notJson => ⟨.serialization, s!"{path}:{number}"⟩
  | .notObject j => ⟨.serialization, s!"{path}:{number}: expected a JSON object, found {j.compact}"⟩

/-- The batches of the text of one file: all of them or an error. -/
def textBatches (s : FileSource) (path text : String) : ConnectorResult (List Batch) :=
  match Lines.records text with
  | .error (number, fault) => .error (lineError path number fault)
  | .ok records => ((Batch.ofRecords records).project s.projection).map (·.chunks s.batchSize)

/-- What reading one file yields. -/
def fileItems (s : FileSource) (t : FileTree) (path : String) : List StreamItem :=
  match t.readText path with
  | .error e => [.failure e.error]
  | .ok text =>
      match s.textBatches path text with
      | .ok batches => batches.map .batch
      | .error e => [.failure e]

/-- Reads the files found on opening; they can be read once. -/
def read (s : FileSource) (t : FileTree) : FileSource × Stream :=
  ({ s with files := [] }, .ofItems (s.files.flatMap (s.fileItems t)))

/-- Closes the source. -/
def close (s : FileSource) : FileSource := { s with files := [] }

end FileSource

/-- The form of a part. -/
inductive FileFormat where
  | json
  | csv
  deriving DecidableEq, Repr, Inhabited

namespace FileFormat

/-- The name of a form. -/
def name : FileFormat → String
  | json => "json"
  | csv => "csv"

/-- All forms. -/
def all : List FileFormat := [json, csv]

/-- The form of a name. -/
def ofName? (s : String) : Option FileFormat := all.find? (·.name == s)

/-- The ending of a part's name. -/
def ending : FileFormat → String
  | json => "jsonl"
  | csv => "csv"

/-- The text of a batch. -/
def encode : FileFormat → Batch → String
  | json, b => b.toJsonLines
  | csv, b => Csv.text b

end FileFormat

/-- A sink that writes parts into a directory, which is known once it is opened. -/
structure FileSink where
  path : String
  format : FileFormat
  saveMode : SaveMode
  projection : Projection
  run : RunId
  directory : Option FilePath
  parts : Nat
  rows : Nat
  discards : Bool
  deriving Inhabited

namespace FileSink

/-- The options of the sink. -/
def schema : OptionSchema :=
  (((OptionSchema.new "file").required "path" .string "Output directory").withDefault
    "format" (.oneOf (FileFormat.all.map FileFormat.name)) (.string FileFormat.json.name)
    "Part file format").withDefault
    "saveMode" (.oneOf SaveMode.choices) (.string SaveMode.append.name)
    "What to do when the directory already holds data"
  |>.withColumns

/-- The sink that options ask for. -/
def create (run : RunId) (o : ValidOptions) : Except OptionsError FileSink := do
  Settings.check ⟨[], [nonEmptySetting "path"]⟩ o
  let format := ((o.string? "format").bind FileFormat.ofName?).getD .json
  return ⟨o.text "path", format, o.saveMode, ← o.projection, run, none, 0, 0, false⟩

/-- The name of the marker that a commit leaves. -/
def marker : String := "_SUCCESS"

/-- What begins the name of a part. -/
def partStart : String := "part-"

/-- The name of a part. -/
def partName (s : FileSink) : String :=
  String.ofList (partStart.toList ++ padded 5 s.parts ++ '-' :: s.run.shortChars ++
    '.' :: s.format.ending.toList)

/-- Whether a name ends in a hash sign and digits, as that of a file whose writing has not ended. -/
def isUnfinished (name : String) : Bool :=
  let ds := (name.toList.reverse.takeWhile (· != '#'))
  name.toList.contains '#' && !ds.isEmpty && ds.all Text.isDigit

/-- Whether a file below the directory is data of an earlier run: a part or a marker. -/
def isEarlier (path : FilePath) : Bool :=
  match path.getLast? with
  | none => false
  | some name =>
      (partStart.toList.isPrefixOf name.toList || name == marker) && !isUnfinished name

/-- The data of earlier runs below a directory, at any depth. -/
def earlier (t : FileTree) (directory : FilePath) : List FilePath :=
  ((t.filesBelow directory).map Prod.fst).filter isEarlier

/-- The tree without the data of earlier runs. -/
def removeEarlier (t : FileTree) (directory : FilePath) : FileTree :=
  (earlier t directory).foldl (fun t path => t.erase (directory ++ path)) t

/-- Opens the sink: the directory is created, and what becomes of data that is there already depends
on the save mode. -/
def openDirectory (s : FileSink) (t : FileTree) : (FileSink × FileTree) × ConnectorResult Unit :=
  match t.createDirectories s.path with
  | none => ((s, t), .error ⟨.config, "failed to create output directory"⟩)
  | some (t, directory) =>
      let opened := { s with directory := some directory }
      match s.saveMode with
      | .append => ((opened, t), .ok ())
      | .overwrite => ((opened, removeEarlier t directory), .ok ())
      | .errorIfExists =>
          if (earlier t directory).isEmpty then ((opened, t), .ok ())
          else ((s, t), .error ⟨.fatal, s!"output path '{s.path}' already contains data"⟩)
      | .ignore =>
          (({ opened with discards := !(earlier t directory).isEmpty }, t), .ok ())

/-- The error about a sink that is not open. -/
def notOpen : ConnectorError := ⟨.internal, "file sink used before open"⟩

/-- Writes a batch as one part. -/
def write (s : FileSink) (t : FileTree) (b : Batch) :
    (FileSink × FileTree) × ConnectorResult Acknowledgement :=
  if s.discards || b.isEmpty then ((s, t), .ok .none)
  else
    match b.project s.projection with
    | .error e => ((s, t), .error e)
    | .ok b =>
        let text := s.format.encode b
        match s.directory with
        | none => ((s, t), .error notOpen)
        | some directory =>
            match t.writeAt (directory ++ [s.partName]) (.text text) with
            | none => ((s, t), .error ⟨.connection, s!"write of {s.partName} failed"⟩)
            | some t =>
                (({ s with parts := s.parts + 1, rows := s.rows + b.size }, t),
                  .ok ⟨b.size, text.utf8ByteSize⟩)

/-- What the sink answers to a commit. -/
def receipt (s : FileSink) : CommitReceipt := ⟨s.rows, some ("file://" ++ s.path)⟩

/-- Commits the sink, which leaves the marker. -/
def commit (s : FileSink) (t : FileTree) : FileTree × ConnectorResult CommitReceipt :=
  if s.discards then (t, .ok s.receipt)
  else
    match s.directory with
    | none => (t, .error notOpen)
    | some directory =>
        match t.writeAt (directory ++ [marker]) (.text "") with
        | none => (t, .error ⟨.objectStore, ""⟩)
        | some t => (t, .ok s.receipt)

/-- Closes the sink. -/
def close (s : FileSink) : FileSink := { s with directory := none }

end FileSink

end BatchTransfer
