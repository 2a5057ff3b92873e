import BatchTransfer.Host.Objects
import BatchTransfer.Host.Results
import BatchTransfer.Host.Tables
import BatchTransfer.Rehearsal.Mock
import BatchTransfer.Rehearsal.Script
import BatchTransfer.RunId

/-!
# Hosts

A host holds all that connectors read and write beside the rows of a transfer: tables, published
results, files, shared objects, printed lines, and what rehearsals keep.
-/

namespace BatchTransfer

/-- What connectors find and leave behind. -/
structure Host where
  tables : Tables := .empty
  results : Results := .empty
  shelves : Staging.Shelves
  log : List String := []
  mock : Rehearsal.Mock := {}
  stage : Rehearsal.Stage := {}
  nextRun : RunId := ⟨0⟩
  deriving Inhabited

namespace Host

/-- The host that holds nothing, with a working directory for its files. -/
def new (workingDirectory : FilePath) : Host :=
  { shelves := ⟨.empty, .empty workingDirectory⟩ }

/-- The files of the host. -/
def files (h : Host) : FileTree := h.shelves.files

/-- Replaces the files of the host. -/
def setFiles (h : Host) (files : FileTree) : Host :=
  { h with shelves := { h.shelves with files } }

/-- Prints a line. -/
def print (h : Host) (line : String) : Host := { h with log := h.log ++ [line] }

end Host

end BatchTransfer
