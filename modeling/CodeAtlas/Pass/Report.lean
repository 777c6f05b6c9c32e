import CodeAtlas.Value.Basic

/-!
# Reports and progress

A pass over a project ends in a report of what it did. While it runs it tells of its progress.
-/

namespace CodeAtlas

/-- What a pass covers: the project, one file, or the removal of one file. -/
inductive Mode
  | full
  | file
  | remove
deriving DecidableEq, Repr

def Mode.text : Mode → Text
  | .full => "full"
  | .file => "file"
  | .remove => "remove"

/-- The outcome of one pass. -/
structure Report where
  project : Text
  mode : Mode
  /-- The message of the failure that ended the pass, if one did. -/
  error : Option Text
  /-- Whether a file was passed over. -/
  skipped : Bool
  filesScanned : Nat
  filesIndexed : Nat
  unitsIndexed : Nat
  staleRemoved : Nat
  /-- The files that could not be parsed, each with the reason. -/
  skippedFiles : List (Text × Text)
deriving DecidableEq, Repr

namespace Report

/-- The report of a pass that has done nothing yet. -/
def start (project : Text) (mode : Mode) : Report := ⟨project, mode, none, false, 0, 0, 0, 0, []⟩

def success (r : Report) : Bool := r.error.isNone

def fail (r : Report) (message : Text) : Report := { r with error := some message }

/-- Sets the reason of a file in place, or at the end if the file is new. -/
def setReason (files : List (Text × Text)) (file reason : Text) : List (Text × Text) :=
  match files with
  | [] => [(file, reason)]
  | (f, r) :: rest =>
    if f = file then (file, reason) :: rest else (f, r) :: setReason rest file reason

/-- Notes a file that could not be parsed. -/
def skipFile (r : Report) (file reason : Text) : Report :=
  { r with skippedFiles := setReason r.skippedFiles file reason }

def fields (r : Report) : Fields := [
  ("project", .text r.project),
  ("mode", .text r.mode.text),
  ("success", .bool r.success),
  ("error", (r.error.map .text).getD .null),
  ("skipped", .bool r.skipped),
  ("files_scanned", .int r.filesScanned),
  ("files_indexed", .int r.filesIndexed),
  ("units_indexed", .int r.unitsIndexed),
  ("stale_removed", .int r.staleRemoved),
  ("skipped_files", .dict (r.skippedFiles.map fun (file, reason) => (file, .text reason)))]

end Report

/-- Where the indexing of a project stands. -/
inductive Status
  | idle
  | indexing
  | indexed
  | error
deriving DecidableEq, Repr

def Status.text : Status → Text
  | .idle => "idle"
  | .indexing => "indexing"
  | .indexed => "indexed"
  | .error => "error"

/-- How far a full pass is. -/
structure Progress where
  current : Nat
  total : Nat
  currentFile : Option Text
  status : Status
deriving DecidableEq, Repr

namespace Progress

/-- Before any file, in the given status. -/
def blank (status : Status) : Progress := ⟨0, 0, none, status⟩

def fields (p : Progress) : Fields := [
  ("current", .int p.current),
  ("total", .int p.total),
  ("current_file", (p.currentFile.map .text).getD .null),
  ("status", .text p.status.text)]

end Progress

end CodeAtlas
