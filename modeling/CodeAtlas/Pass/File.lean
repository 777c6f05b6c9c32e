import CodeAtlas.Pass.Basic

/-!
# Passes over one file

A file is indexed again after it was saved, and its units are removed after it was deleted. A file
that is missing or of no known language is passed over.
-/

namespace CodeAtlas.Pass

variable {σ : Type}

/-- The file that a path means, as seen from the project. -/
def locate (ix : Indexer σ) (path : SourcePath) : PassM σ Text :=
  step .turn fun w => ((ix.relative w.disk (ix.absolute path)).mapError .escaped, w)

/-- Whether there is a file of a known language. -/
def isSource (path : SourcePath) : PassM σ Bool :=
  step .turn fun w =>
    (if (Language.ofFile? path.name).isSome then
      (w.disk.isFile path.parts).mapError fun e => .escaped (.lookup e)
    else .ok false, w)

def extractOne (ix : Indexer σ) (path : SourcePath) (file : Text) : PassM σ Extracted :=
  step .extract fun w => (extractFile ix w path file, w)

/-- Deletes what the file had stored before and the pass did not find again. -/
def pruneFile (ix : Indexer σ) (file : Text) (items : List IndexItem) : PassM σ Unit := do
  let stored ← keys ix (some file) none
  let removed ← delete ix (stale stored items)
  note fun r => { r with staleRemoved := removed }

/-- Embeds and writes the units of a file. -/
def store (ix : Indexer σ) (file : Text) (units : List CodeUnit) : PassM σ Unit := do
  let items ← embedFiles ix [units]
  upsert ix items
  note fun r => { r with filesIndexed := 1, unitsIndexed := items.length }
  if ix.pruneStale then pruneFile ix file items

def fileSteps (ix : Indexer σ) (path : SourcePath) : PassM σ Unit := do
  let file ← locate ix path
  if ← isSource (ix.absolute path) then
    note fun r => { r with filesScanned := 1 }
    match (← extractOne ix (ix.absolute path) file).units with
    | .error reason => note fun r => { r.skipFile file reason with skipped := true }
    | .ok units => store ix file units
  else note fun r => { r with skipped := true }

/-- Indexes one file again. -/
def file (ix : Indexer σ) (path : SourcePath) : Steps (Workspace σ) (Except Escape Report) :=
  outcome (.start ix.project .file) (pure ()) (fileSteps ix path)

def removeSteps (ix : Indexer σ) (path : SourcePath) : PassM σ Unit := do
  let file ← locate ix path
  let stored ← keys ix (some file) none
  let removed ← delete ix stored
  note fun r => { r with staleRemoved := removed }

/-- Deletes every unit stored for one file. -/
def remove (ix : Indexer σ) (path : SourcePath) : Steps (Workspace σ) (Except Escape Report) :=
  outcome (.start ix.project .remove) (pure ()) (removeSteps ix path)

end CodeAtlas.Pass
