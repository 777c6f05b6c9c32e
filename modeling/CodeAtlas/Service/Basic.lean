import CodeAtlas.Pass.File
import CodeAtlas.Pass.Full
import CodeAtlas.Search.Hit

/-!
# The indexing service

A service owns one project: it runs at most one full pass in the background, indexes and removes
single files, and answers searches. A full pass holds the project from its first step to its last;
a pass that finds the project held by someone else ends at once.
-/

namespace CodeAtlas

/-- A full pass in the background: not yet begun, or as far as it has come. -/
inductive FullPass (σ : Type)
  | ready
  | inside (rest : Steps (Workspace σ) (Except Escape Report))

structure Service (σ : Type) where
  indexer : Indexer σ
  /-- How many hits a search gives unless it asks for fewer. -/
  topK : Int
  workspace : Workspace σ
  /-- The progress last told. -/
  progress : Progress
  /-- The report of the operation that finished last. -/
  lastReport : Option Report
  task : Option (FullPass σ)
  /-- Whether someone else holds the project. -/
  held : Bool
  /-- Files to be indexed again once the request that asked for it has been answered. -/
  pending : List SourcePath

/-- What a full pass says when the project is held. -/
def busyMessage (project : Text) : Text := "Indexing already in progress for project: " ++ project

namespace Service

variable {σ : Type}

def make (indexer : Indexer σ) (topK : Int) (workspace : Workspace σ) : Service σ :=
  ⟨indexer, topK, workspace, .blank .idle, none, none, false, []⟩

/-- The service of the project at a path. -/
def ofRoot (root : SourcePath) (config : Value) (embedder : Embedder σ) (index : VectorIndex)
    (workspace : Workspace σ) : Except Escape (Service σ) := do
  let root ← withoutLinks workspace.disk root
  let indexer ← (Indexer.ofConfig root config embedder index).mapError .setting
  let topK ← (Search.topKOf config).mapError .setting
  return make indexer topK workspace

/-- The project that a configuration names, else the working folder. -/
def rootOf (config : Value) (folder : SourcePath) : Except SettingError SourcePath := do
  let root ← config.field "project_root" .null
  if root.truthy then
    match root with
    | .text s => return .ofText s
    | _ => throw .wrongType
  else return folder

/-- The service of the project that a configuration names. -/
def ofConfig (config : Value) (folder : SourcePath) (embedder : Embedder σ) (index : VectorIndex)
    (workspace : Workspace σ) : Except Escape (Service σ) := do
  let root ← (rootOf config folder).mapError .setting
  ofRoot (folder.join root) config embedder index workspace

/-- Whether a full pass is under way. -/
def running (s : Service σ) : Bool := s.task.isSome

/-- Whether the project is held. -/
def busy (s : Service σ) : Bool :=
  s.held ||
    match s.task with
    | some (.inside _) => true
    | _ => false

/-- Takes over the progress that was told. -/
def hear (s : Service σ) : Service σ :=
  { s with
    progress := (s.workspace.events.getLast?).getD s.progress
    workspace := { s.workspace with events := [] } }

/-! ## Full passes -/

/-- Starts a full pass in the background, `none` if one is under way or the project is held. -/
def start? (s : Service σ) : Option (Service σ) :=
  if s.running || s.busy then none
  else some { s with progress := .blank .indexing, task := some .ready }

def busyReport (s : Service σ) : Report :=
  (Report.start s.indexer.project .full).fail (busyMessage s.indexer.project)

/-- Lets a full pass go on until it is done or waits for something that stops it; the result is
there once it is done. -/
def advance (stops : Await → Bool) (s : Service σ)
    (rest : Steps (Workspace σ) (Except Escape Report)) :
    Option (Except Escape Report) × Service σ :=
  let (rest, w) := rest.runUntil stops s.workspace
  let s := hear { s with workspace := w }
  match rest with
  | .done (.ok report) => (some (.ok report), { s with task := none, lastReport := some report })
  | .done (.error e) => (some (.error e), { s with task := none })
  | rest => (none, { s with task := some (.inside rest) })

/-- Lets the full pass under way go on. -/
def resume (stops : Await → Bool) (s : Service σ) : Option (Except Escape Report) × Service σ :=
  match s.task with
  | none => (none, s)
  | some .ready =>
    if s.held then
      (some (.ok s.busyReport), { s with task := none, lastReport := some s.busyReport })
    else s.advance stops (Pass.full s.indexer)
  | some (.inside rest) => s.advance stops rest

/-- Nothing stops a pass. -/
def never (_ : Await) : Bool := false

/-- Gives up the full pass under way, leaving what it has done so far. -/
def shutdown (s : Service σ) : Service σ := { s with task := none }

/-! ## Single files -/

/-- Runs a pass to its end. -/
def runPass (pass : Steps (Workspace σ) (Except Escape Report)) (s : Service σ) :
    Except Escape Report × Service σ :=
  let (result, w) := pass.run s.workspace
  (result, hear { s with workspace := w })

/-- Indexes a file again; a skipped file leaves no report. -/
def indexFile (path : SourcePath) (s : Service σ) : Except Escape Report × Service σ :=
  match s.runPass (Pass.file s.indexer path) with
  | (.ok report, s) =>
    (.ok report, if report.skipped then s else { s with lastReport := some report })
  | (.error e, s) => (.error e, s)

/-- Removes the units of a file. -/
def removeFile (path : SourcePath) (s : Service σ) : Except Escape Report × Service σ :=
  match s.runPass (Pass.remove s.indexer path) with
  | (.ok report, s) => (.ok report, { s with lastReport := some report })
  | (.error e, s) => (.error e, s)

/-- Does what was put off until after the answer: files first, then the full pass. -/
def settle (stops : Await → Bool) (s : Service σ) : Service σ :=
  let s := s.pending.foldl (fun s path => (s.indexFile path).2) { s with pending := [] }
  (s.resume stops).2

/-! ## Searches -/

/-- How an index is asked for the matches of a vector, up to a limit. -/
abbrev Asking :=
  VectorIndex → Embedding → Int → StateM Client (Except IndexFailure (List IndexMatch))

/-- Asks the vector index, with all metadata. -/
def ask : Asking := fun index v limit => (index.query v limit true).run

/-- Lets a search work on the embedder and the client. -/
def searching (m : StateM (σ × Client) (Except Search.Error (List SearchHit))) (s : Service σ) :
    Except Search.Error (List SearchHit) × Service σ :=
  let w := s.workspace
  let (result, (e, c)) := m.run (w.embedding, w.client)
  (result, { s with workspace := { w with embedding := e, client := c } })

/-- The hits of a query. -/
def search (asking : Asking) (query : Text) (limit : Int) (s : Service σ) :
    Except Search.Error (List SearchHit) × Service σ :=
  s.searching (Search.hits s.indexer.embedder (asking s.indexer.index) query limit)

/-- The hits of a query under a limit that need not be an integer; none stands for the service's
own. -/
def searchWithin (asking : Asking) (query : Text) (limit : Value) (s : Service σ) :
    Except Search.Error (List SearchHit) × Service σ :=
  let limit := match limit with
    | .null => .int s.topK
    | v => v
  s.searching (Search.hitsWithin s.indexer.embedder (asking s.indexer.index) query limit)

/-- How many units are stored. -/
def count (s : Service σ) : Except IndexFailure Nat × Service σ :=
  let (result, c) := s.indexer.index.count.run.run s.workspace.client
  (result, { s with workspace := { s.workspace with client := c } })

end Service

end CodeAtlas
