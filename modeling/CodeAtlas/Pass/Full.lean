import CodeAtlas.Pass.Basic

/-!
# The full pass

All source files of a project are scanned, their units extracted and embedded, and the items
written. With pruning, stored units of the project that were not found again are deleted, except
those of files that could not be parsed this time.
-/

namespace CodeAtlas.Pass

variable {σ : Type}

def scanFailure : Scan.Error → PassFailure
  | .source e => .reported (.source e)
  | .setting e => .escaped (.setting e)
  | .lookup e => .escaped (.lookup e)

/-- The paths of the project's source files. -/
def scan (ix : Indexer σ) : PassM σ (List SourcePath) :=
  step .scan fun w =>
    let found := (Scan.sources w.disk ix.root ix.config).mapError scanFailure
    (found.map fun rels => rels.map fun rel => ix.root.join ⟨.relative, rel⟩, w)

/-- Extracts the file after `done` of `total` files, telling of it first. -/
def extractNext (ix : Indexer σ) (done total : Nat) (path : SourcePath) : PassM σ Extracted :=
  step .extract do
    let w ← get
    match ix.relative w.disk path with
    | .error e => return .error (.escaped e)
    | .ok file =>
      tell ⟨done, total, some file, .indexing⟩
      return extractFile ix w path file

/-- Extracts the files in turn; the result has those with units. -/
def extractAll (ix : Indexer σ) (done total : Nat) :
    List SourcePath → PassM σ (List (List CodeUnit))
  | [] => return []
  | path :: rest => do
    let found ← extractNext ix done total path
    match found.units with
    | .error reason =>
      note (·.skipFile found.file reason)
      extractAll ix (done + 1) total rest
    | .ok units =>
      note fun r => { r with filesIndexed := r.filesIndexed + 1 }
      let more ← extractAll ix (done + 1) total rest
      return if units.isEmpty then more else units :: more

/-- The keys that do not belong to one of the files; if there is one, keys have to be texts. -/
def outside (files : List Text) : List Value → Except Escape (List Value)
  | [] => .ok []
  | key :: keys =>
    match key with
    | .text s => do
      let rest ← outside files keys
      return if CodeUnit.keyInFiles s files then rest else key :: rest
    | key => if files.isEmpty then return key :: (← outside files keys) else throw .keyWithoutStart

/-- Deletes what the project had stored before and the pass did not find again. -/
def pruneProject (ix : Indexer σ) (items : List IndexItem) : PassM σ Unit := do
  let stored ← keys ix none (some ix.project)
  let skipped := (← getThe Report).skippedFiles.map (·.1)
  let gone ← ExceptT.mk (pure ((outside skipped (stale stored items)).mapError .escaped))
  let removed ← delete ix gone
  note fun r => { r with staleRemoved := removed }

def fullSteps (ix : Indexer σ) : PassM σ Unit := do
  let files ← scan ix
  note fun r => { r with filesScanned := files.length }
  let found ← extractAll ix 0 files.length files
  let items ← embedFiles ix found
  upsert ix items
  note fun r => { r with unitsIndexed := items.length }
  if ix.pruneStale then pruneProject ix items
  step .turn do
    tell ⟨files.length, files.length, none, .indexed⟩
    return .ok ()

/-- The full pass over a project. -/
def full (ix : Indexer σ) : Steps (Workspace σ) (Except Escape Report) :=
  outcome (.start ix.project .full) (tell (.blank .error)) (fullSteps ix)

end CodeAtlas.Pass
