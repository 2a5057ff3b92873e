import BatchTransfer.Host.FileTree
import BatchTransfer.KeyMap
import BatchTransfer.Staging.Location

/-!
# Object stores

An object store keeps contents under object paths. Objects are kept in memory, by a store of their
own or by one that several jobs share, or as files below a directory.
-/

namespace BatchTransfer.Staging

/-- Objects in memory by path. -/
abbrev Objects := KeyMap Content

/-- The objects below a folder. -/
def Objects.below (o : Objects) (folder : ObjectPath) : List String :=
  o.keys.filter fun key => (ObjectPath.ofEncoded key).isBelow folder

/-- What the object stores of a host hold: shared objects, and files. -/
structure Shelves where
  shared : Objects
  files : FileTree
  deriving Inhabited

/-- An object store. -/
inductive Store where
  | own (objects : Objects)
  | shared
  | directory (root : FilePath)
  deriving Inhabited

namespace Store

/-- The file that holds an object below a root; its names are the segments as they are. -/
def fileOf (root : FilePath) (path : ObjectPath) : FilePath :=
  root ++ path.segments

/-- Writes an object. It fails where a directory or a file is in the way. -/
def put? (store : Store) (shelves : Shelves) (path : ObjectPath) (content : Content) :
    Option (Store × Shelves) :=
  match store with
  | own objects => some (.own (objects.insert path.text content), shelves)
  | .shared => some (.shared, { shelves with shared := shelves.shared.insert path.text content })
  | directory root =>
      let file := fileOf root path
      match shelves.files.createAlong [] (FileTree.above file) with
      | none => none
      | some (files, _) =>
          match files.writeAt file content with
          | none => none
          | some files => some (.directory root, { shelves with files })

/-- The content of an object. -/
def get? (store : Store) (shelves : Shelves) (path : ObjectPath) : Option Content :=
  match store with
  | own objects => objects.get? path.text
  | .shared => shelves.shared.get? path.text
  | directory root =>
      match shelves.files.entry? (fileOf root path) with
      | some (.file content) => some content
      | _ => none

/-- Removes the objects that a folder holds. -/
def removeBelow (store : Store) (shelves : Shelves) (folder : ObjectPath) : Store × Shelves :=
  match store with
  | own objects => (.own ((objects.below folder).foldl KeyMap.erase objects), shelves)
  | .shared =>
      (.shared,
        { shelves with shared := (shelves.shared.below folder).foldl KeyMap.erase shelves.shared })
  | directory root =>
      let below := fileOf root folder
      let files := (shelves.files.filesBelow below).foldl
        (fun t (path, _) => t.erase (below ++ path)) shelves.files
      (.directory root, { shelves with files })

end Store

end BatchTransfer.Staging
