import BatchTransfer.Host.Content
import BatchTransfer.Text.Pieces
import Std.Data.TreeMap

/-!
# Trees of files

A file tree holds directories and files under absolute paths. A path is written as names between
slashes, may start at the working directory, and may hold the names `.` and `..`; it is followed
name by name, so every name but the last must be that of a directory. What stands under the paths is
kept in a balanced tree, since a directory may hold very many parts.
-/

namespace BatchTransfer

open BatchTransfer.Text

/-- The names on the way from the root. -/
abbrev FilePath := List String

/-- What stands under a path. -/
inductive FileEntry where
  | directory
  | file (content : Content)
  deriving DecidableEq, Repr, Inhabited

/-- Why a file cannot be reached or read. -/
inductive FileFault where
  | missing
  | notDirectory
  | isDirectory
  | notText
  deriving DecidableEq, Repr

/-- The fault in the words of the operating system. -/
def FileFault.message : FileFault → String
  | missing => "No such file or directory (os error 2)"
  | notDirectory => "Not a directory (os error 20)"
  | isDirectory => "Is a directory (os error 21)"
  | notText => "stream did not contain valid UTF-8"

/-- Directories and files by path, and the directory at which relative paths start. -/
structure FileTree where
  entries : Std.TreeMap String FileEntry
  workingDirectory : FilePath
  deriving Inhabited

namespace FileTree

/-- The key of a path. -/
def key (path : FilePath) : String := "/" ++ "/".intercalate path

/-- The tree that holds nothing but the root and the working directory. -/
def empty (workingDirectory : FilePath) : FileTree :=
  { entries := .ofList ((List.range (workingDirectory.length + 1)).map fun n =>
      (key (workingDirectory.take n), FileEntry.directory))
    workingDirectory }

/-- What stands under a path. -/
def entry? (t : FileTree) (path : FilePath) : Option FileEntry := t.entries[key path]?

/-- Puts an entry under a path. -/
def put (t : FileTree) (path : FilePath) (entry : FileEntry) : FileTree :=
  { t with entries := t.entries.insert (key path) entry }

@[simp]
theorem entry?_put (t : FileTree) (path other : FilePath) (entry : FileEntry) :
    FileTree.entry? (t.put path entry) other =
      if key other = key path then some entry else t.entry? other := by
  simp only [FileTree.entry?, put, Std.TreeMap.getElem?_insert, Std.compare_eq_iff_eq,
    eq_comm (a := key path)]

/-- The path above. -/
def above (path : FilePath) : FilePath := path.dropLast

/-- The names that a written path holds, without empty ones and those that mean the directory
itself. -/
def names (text : String) : List String :=
  ((splitPieces (· == '/') text.toList).map String.ofList).filter fun n => n != "" && n != "."

/-- The directory at which a written path starts. -/
def start (t : FileTree) (text : String) : FilePath :=
  match text.toList with
  | '/' :: _ => []
  | _ => t.workingDirectory

/-- Whether a written path can only mean a directory. -/
def meansDirectory (text : String) : Bool :=
  ["", ".", ".."].contains (((splitPieces (· == '/') text.toList).getLast?).elim "" String.ofList)

/-- Follows names from a directory. The last name need not be there. -/
def follow (t : FileTree) (at_ : FilePath) : List String → Except FileFault FilePath
  | [] => .ok at_
  | ".." :: rest => t.follow (above at_) rest
  | [name] => .ok (at_ ++ [name])
  | name :: rest =>
      match t.entry? (at_ ++ [name]) with
      | some .directory => t.follow (at_ ++ [name]) rest
      | some (.file _) => .error .notDirectory
      | none => .error .missing

/-- The path and the entry that a written path leads to. The empty path leads nowhere. -/
def find (t : FileTree) (text : String) : Except FileFault (FilePath × FileEntry) :=
  if text.isEmpty then .error .missing
  else
    match t.follow (t.start text) (names text) with
    | .error e => .error e
    | .ok path =>
        match t.entry? path with
        | none => .error .missing
        | some .directory => .ok (path, .directory)
        | some (.file content) =>
            if meansDirectory text then .error .notDirectory else .ok (path, .file content)

/-- The text of a file. -/
def readText (t : FileTree) (text : String) : Except FileFault String :=
  match t.find text with
  | .error e => .error e
  | .ok (_, .directory) => .error .isDirectory
  | .ok (_, .file content) =>
      match content.text? with
      | some s => .ok s
      | none => .error .notText

/-- Creates the directories on the way along names, where none of the names is that of a file. The
path of the last one comes with the tree. -/
def createAlong (t : FileTree) (at_ : FilePath) : List String → Option (FileTree × FilePath)
  | [] => some (t, at_)
  | ".." :: rest => t.createAlong (above at_) rest
  | name :: rest =>
      match t.entry? (at_ ++ [name]) with
      | some .directory => t.createAlong (at_ ++ [name]) rest
      | some (.file _) => none
      | none => (t.put (at_ ++ [name]) .directory).createAlong (at_ ++ [name]) rest

/-- Creates a directory and those above it, where they are missing. -/
def createDirectories (t : FileTree) (text : String) : Option (FileTree × FilePath) :=
  t.createAlong (t.start text) (names text)

/-- Writes a file under a path; a directory is not replaced. -/
def writeAt (t : FileTree) (path : FilePath) (content : Content) : Option FileTree :=
  match t.entry? path with
  | some .directory => none
  | _ => some (t.put path (.file content))

/-- Writes a file and creates the directories above it. -/
def write (t : FileTree) (text : String) (content : Content) : Option FileTree :=
  let all := names text
  match t.createAlong (t.start text) all.dropLast with
  | some (t, directory) =>
      match all.getLast? with
      | some name => t.writeAt (directory ++ [name]) content
      | none => none
  | none => none

/-- The tree without the file under a path. -/
def erase (t : FileTree) (path : FilePath) : FileTree :=
  { t with entries := t.entries.erase (key path) }

@[simp]
theorem entry?_erase (t : FileTree) (path other : FilePath) :
    FileTree.entry? (t.erase path) other =
      if key other = key path then none else t.entry? other := by
  simp only [FileTree.entry?, erase, Std.TreeMap.getElem?_erase, Std.compare_eq_iff_eq,
    eq_comm (a := key path)]

/-- The names of a key. -/
def pathOfKey (key : String) : FilePath := names key

/-- The file that stands under a key, with its path below a directory, if it lies there. -/
def fileBelow? (directory : FilePath) : String × FileEntry → Option (FilePath × Content)
  | (key, .file content) =>
      let path := pathOfKey key
      if directory.isPrefixOf path then some (path.drop directory.length, content) else none
  | (_, .directory) => none

/-- The files below a directory, in the order of their keys, each with its path below it. -/
def filesBelow (t : FileTree) (directory : FilePath) : List (FilePath × Content) :=
  t.entries.toList.filterMap (fileBelow? directory)

/-- The name of a file that lies in a directory itself. -/
def nameInside? : FilePath × Content → Option String
  | ([name], _) => some name
  | _ => none

/-- The names of the files that lie in a directory itself, in ascending order. -/
def fileNames (t : FileTree) (directory : FilePath) : List String :=
  (t.filesBelow directory).filterMap nameInside?

end FileTree

end BatchTransfer
