import BatchTransfer.Url

/-!
# Staging locations and object paths

A staging area is named by a locator: objects in memory, a local directory, or a folder of a
bucket. Inside an area an object has a path of encoded segments. `ObjectPath.ofText` splits a text
at slashes and leaves out empty pieces, so the path of a folder and a name is the path of the
folder followed by the encoded name.
-/

namespace BatchTransfer.Staging

open BatchTransfer.Text

/-- A character that may not stand in a segment of an object path. -/
def isEncodedInSegment (c : Char) : Bool :=
  isControl c ||
    ['/', '\\', '{', '^', '}', '%', '`', ']', '"', '>', '[', '~', '<', '#', '|', '*',
      '?'].contains c

/-- The segment that stands for a name. A name of one or two dots is encoded as well. -/
def encodeSegment (name : List Char) : List Char :=
  if name == ['.'] then "%2E".toList
  else if name == ['.', '.'] then "%2E%2E".toList
  else percentEncode isEncodedInSegment name

/-- The path of an object: its segments, encoded. -/
structure ObjectPath where
  segments : List String
  deriving DecidableEq, Repr, Inhabited

namespace ObjectPath

/-- The pieces of a text between slashes that are not empty. -/
def pieces (text : String) : List (List Char) :=
  (splitPieces (· == '/') text.toList).filter (!·.isEmpty)

/-- The path of the non-empty pieces of a text. -/
def ofText (text : String) : ObjectPath :=
  ⟨(pieces text).map fun piece => String.ofList (encodeSegment piece)⟩

/-- The path of a text whose pieces are encoded already. -/
def ofEncoded (text : String) : ObjectPath := ⟨(pieces text).map String.ofList⟩

/-- The path of an object in a folder. -/
def append (folder name : ObjectPath) : ObjectPath := ⟨folder.segments ++ name.segments⟩

/-- The path in one text. -/
def text (p : ObjectPath) : String := "/".intercalate p.segments

/-- Whether an object lies below a folder. -/
def isBelow (p folder : ObjectPath) : Bool :=
  folder.segments.isPrefixOf p.segments && folder.segments.length < p.segments.length

/-- The last segment. -/
def fileName? (p : ObjectPath) : Option String := p.segments.getLast?

end ObjectPath

/-- A staging area. -/
inductive Location where
  | memory (folder : String)
  | directory (root : String)
  | bucket (name folder : String)
  deriving DecidableEq, Repr, Inhabited

/-- Why a text names no staging area. -/
inductive LocationError where
  | malformed (text : String)
  | notLocal (text : String)
  | noBucket (text : String)
  | unsupportedScheme (scheme : String)
  deriving DecidableEq, Repr

/-- The error in words. -/
def LocationError.message : LocationError → String
  | malformed text => s!"invalid staging URL '{text}'"
  | notLocal text => s!"invalid local staging path '{text}'"
  | noBucket text => s!"staging URL '{text}' has no bucket"
  | unsupportedScheme scheme => s!"unsupported staging scheme '{scheme}'"

/-- The texts that are not empty, joined by slashes. -/
def joinNonEmpty (parts : List String) : String :=
  "/".intercalate (parts.filter (· != ""))

/-- The text without the slashes at both ends. -/
def trimSlashes (s : String) : String :=
  String.ofList (((s.toList.dropWhile (· == '/')).reverse.dropWhile (· == '/')).reverse)

namespace Location

/-- The staging area that a locator names. -/
def read (text : String) : Except LocationError Location :=
  match Url.read? text with
  | none => .error (.malformed text)
  | some url =>
      let path := trimSlashes url.path
      if url.scheme == "memory" then .ok (.memory (joinNonEmpty [url.host.getD "", path]))
      else if url.scheme == "file" then
        match url.localPath? with
        | some root => .ok (.directory root)
        | none => .error (.notLocal text)
      else if url.scheme == "s3" || url.scheme == "s3a" then
        match url.host with
        | some name => .ok (.bucket name path)
        | none => .error (.noBucket text)
      else .error (.unsupportedScheme url.scheme)

/-- The folder of the area below which all objects lie. -/
def folder : Location → String
  | memory folder => folder
  | directory _ => ""
  | bucket _ folder => folder

/-- The locator of an object in the area. -/
def locatorOf (l : Location) (path : ObjectPath) : String :=
  match l with
  | memory _ => s!"memory://{path.text}"
  | directory root => s!"file://{root}/{path.text}"
  | bucket name _ => s!"s3://{name}/{path.text}"

/-- The area in words. -/
def display : Location → String
  | memory folder => s!"memory://{folder}"
  | directory root => s!"file://{root}"
  | bucket name folder => s!"s3://{name}/{folder}"

end Location

end BatchTransfer.Staging
