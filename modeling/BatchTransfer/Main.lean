import BatchTransfer.CommandLine.Paths
import BatchTransfer.Host.FileChange

/-!
# The program

Reads what a request needs from the file system and the environment, executes the request, and
leaves behind what it has changed and printed.
-/

namespace BatchTransfer.CommandLine

/-- Puts what stands under a path of the file system under the same path of a tree. -/
partial def readPath (files : FileTree) (path : String) : IO FileTree := do
  let place := (← IO.currentDir) / path
  if ← place.isDir then
    let mut files := ((files.createDirectories path).map Prod.fst).getD files
    for child in ← place.readDir do
      files ← readPath files (path ++ "/" ++ child.fileName)
    return files
  else if ← place.pathExists then
    let bytes ← IO.FS.readBinFile place
    return (files.write path (.ofBytes bytes.toList)).getD files
  else return files

/-- Brings a change about in the file system. -/
def applyChange : FileChange → IO Unit
  | .directory path => IO.FS.createDirAll path
  | .written path (.text text) => IO.FS.writeFile path text
  | .written path (.binary bytes) => IO.FS.writeBinFile path ⟨bytes.toArray⟩
  | .removed path => IO.FS.removeFile path

/-- The host as a request finds it. -/
def readHost (args : List String) : IO (Host × Environment) := do
  let here ← IO.currentDir
  let bytes ← IO.getRandomBytes 10
  let host := { Host.new (FileTree.names here.toString) with
    nextRun := ⟨bytes.toList.foldl (fun n b => 256 * n + b.toNat) 0⟩ }
  match Request.read args with
  | .error _ => return (host, [])
  | .ok request =>
      let files ← request.paths.foldlM readPath host.files
      let files ← (request.command.dataPaths files).foldlM readPath files
      let env ← (request.neededVariables files).filterMapM fun name => do
        return (← IO.getEnv name).map (name, ·)
      return (host.setFiles files, env)

end BatchTransfer.CommandLine

open BatchTransfer in
/-- Executes the program with its arguments. -/
def main (args : List String) : IO UInt32 := do
  let (before, env) ← CommandLine.readHost args
  let (after, outcome) := CommandLine.execute env before args
  for change in before.files.changes after.files do
    CommandLine.applyChange change
  for line in after.log do
    IO.eprintln line
  IO.print outcome.output
  IO.eprint outcome.errors
  return outcome.exitCode
