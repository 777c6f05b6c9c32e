import CodeAtlas.Pass.Indexer
import CodeAtlas.Task.Steps

/-!
# Steps of a pass

The steps that passes are made of: the units of a file, the vectors of its units, and the calls of
the vector index. A pass fills its report as it goes, so that a failure leaves the report of what
was done before.
-/

namespace CodeAtlas

/-- A failure that ends a pass and is told in its report. -/
inductive PassError
  | source (e : SourceError)
  | embed (e : EmbedError)
  | store (e : StoreError)
deriving DecidableEq, Repr

def PassError.message : PassError → Text
  | .source e => e.message
  | .embed e => e.message
  | .store e => e.message

/-- How a pass fails: with a report that tells of it, or without. -/
inductive PassFailure
  | reported (e : PassError)
  | escaped (e : Escape)
deriving DecidableEq, Repr

/-- Work of a pass: in steps on the workspace, beside the report, until it fails. -/
abbrev PassM (σ : Type) := ExceptT PassFailure (StateT Report (Steps (Workspace σ)))

namespace Pass

variable {σ α : Type}

/-- A step that may fail. -/
def step (await : Await) (m : StateM (Workspace σ) (Except PassFailure α)) : PassM σ α :=
  ExceptT.mk (StateT.lift (Steps.wait await m))

/-- Changes the report. -/
def note (f : Report → Report) : PassM σ Unit := modify f

/-- Tells of progress. -/
def tell (p : Progress) : StateM (Workspace σ) Unit :=
  modify fun w => { w with events := w.events ++ [p] }

/-! ## Extraction -/

/-- What became of one file: its units, or why it was skipped. -/
structure Extracted where
  /-- The path as seen from the project. -/
  file : Text
  units : Except Text (List CodeUnit)

/-- Parsing failures skip the file; all others end the pass. -/
def unitsOf : Except Extract.Error (List CodeUnit) →
    Except PassFailure (Except Text (List CodeUnit))
  | .ok units => .ok (.ok units)
  | .error (.span e) => .error (.escaped (.span e))
  | .error (.encode e) => .error (.escaped (.encode e))
  | .error e => .ok (.error e.message)

/-- The units of the file at a path, whose language its own name tells. -/
def extractFile (ix : Indexer σ) (w : Workspace σ) (path : SourcePath) (file : Text) :
    Except PassFailure Extracted := do
  match w.disk.read? path.parts with
  | none => throw (.reported (.source (.unreadable path.text)))
  | some source =>
    let tag := (Language.ofFile? path.name).getD ""
    let units ← unitsOf
      (Extract.extractBytes Language.catalog w.grammars ix.extraction source tag file)
    return ⟨file, units⟩

/-! ## Embedding -/

/-- What the index stores for units and their vectors. -/
def itemsOf (project now : Text) (units : List CodeUnit) (vectors : List Embedding) :
    List IndexItem :=
  (units.zip vectors).map fun (u, v) => ⟨u.key, v, u.payload project now⟩

/-- The items of a file from the answer of the embedder, which owes one vector for each unit. -/
def itemsOfAnswer (project now : Text) (units : List CodeUnit) :
    Except EmbedFailure (List Embedding) → Except PassFailure (List IndexItem)
  | .error (.service e) => .error (.reported (.embed e))
  | .error f =>
    match units.head? with
    | some u => .error (.reported (.embed (.file u.filePath f.message)))
    | none => .error (.escaped .noUnits)
  | .ok vectors =>
    if vectors.length = units.length then .ok (itemsOf project now units vectors)
    else
      match units.head? with
      | some u => .error (.reported (.embed (.vectorCount vectors.length units.length u.filePath)))
      | none => .error (.escaped .noUnits)

/-- Embeds the units of one file with one call. -/
def embedFile (ix : Indexer σ) (units : List CodeUnit) : PassM σ (List IndexItem) :=
  step .embed fun w =>
    let (answer, s) := (ix.embedder.embed (units.map (·.codeText))).run w.embedding
    (itemsOfAnswer ix.project w.now units answer, { w with embedding := s })

/-- Embeds file after file; the items keep the order of the files. -/
def embedFiles (ix : Indexer σ) (files : List (List CodeUnit)) : PassM σ (List IndexItem) := do
  return (← files.mapM (embedFile ix)).flatten

/-! ## Calls of the vector index -/

/-- A failure of an index call, as the pass reports it. -/
def callError (name : Text) : IndexFailure → PassFailure
  | .service e => .reported (.store e)
  | f => .reported (.store (.call name f.message))

def callIndex (name : Text) (m : IndexM α) : PassM σ α :=
  step .store fun w =>
    let (answer, client) := m.run.run w.client
    (answer.mapError (callError name), { w with client := client })

def upsert (ix : Indexer σ) (items : List IndexItem) : PassM σ Unit :=
  if items.isEmpty then return else callIndex "upsert" (ix.index.upsert items)

/-- The stored keys of a file or a project. -/
def keys (ix : Indexer σ) (filePath project : Option Text) : PassM σ (List Value) :=
  callIndex "keys" (ix.index.keys (filePath.map .text) (project.map .text))

/-- Deletes keys in order and tells how many. -/
def delete (ix : Indexer σ) (keys : List Value) : PassM σ Nat := do
  match VectorIndex.sortedKeys? keys with
  | none => throw (.escaped .keysWithoutOrder)
  | some sorted =>
    if !sorted.isEmpty then callIndex "delete" (ix.index.delete sorted)
    return keys.length

/-- The stored keys that are not among the items. -/
def stale (stored : List Value) (items : List IndexItem) : List Value :=
  stored.filter fun key => !items.any fun item => VectorIndex.sameKey (.text item.id) key

/-! ## Outcomes -/

/-- Runs a pass from its first report to its last. `onError` is what it says when a failure is
reported. -/
def outcome (first : Report) (onError : StateM (Workspace σ) Unit) (m : PassM σ Unit) :
    Steps (Workspace σ) (Except Escape Report) := do
  match ← m.run.run first with
  | (.ok (), report) => return .ok report
  | (.error (.escaped e), _) => return .error e
  | (.error (.reported e), report) =>
    Steps.wait .turn onError
    return .ok (report.fail e.message)

end Pass

end CodeAtlas
