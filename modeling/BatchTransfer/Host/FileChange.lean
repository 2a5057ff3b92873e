import BatchTransfer.Host.FileTree

/-!
# Changes of files

Two trees of files differ by the files and directories that are new, the files whose content is
another, and those that are gone. A program that works on a tree leaves these changes behind.
-/

namespace BatchTransfer

/-- One difference between two trees of files, under an absolute path. -/
inductive FileChange where
  | directory (path : String)
  | written (path : String) (content : Content)
  | removed (path : String)
  deriving DecidableEq, Repr

namespace FileTree

/-- What leads from one tree to another. -/
def changes (before after : FileTree) : List FileChange :=
  let added := after.entries.toList.filterMap fun (key, entry) =>
    if before.entries[key]? == some entry then none
    else
      match entry with
      | .directory => some (.directory key)
      | .file content => some (.written key content)
  let removed := before.entries.keys.filterMap fun key =>
    if after.entries.contains key then none else some (.removed key)
  added ++ removed

end FileTree

end BatchTransfer
