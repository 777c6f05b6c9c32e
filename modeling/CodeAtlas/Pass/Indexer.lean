import CodeAtlas.Embed.Embedder
import CodeAtlas.File.Scan
import CodeAtlas.Pass.Report
import CodeAtlas.Store.Index
import CodeAtlas.Unit.Extract

/-!
# Indexers

An indexer holds what the passes over one project have in common. What the passes read and change
is in a `Workspace`.
-/

namespace CodeAtlas

/-- What passes work on, `σ` being the state of the embedder. -/
structure Workspace (σ : Type) where
  disk : Disk
  grammars : Extract.Grammars
  embedding : σ
  client : Client
  /-- The time, as it is noted in payloads. -/
  now : Text
  /-- The progress told so far. -/
  events : List Progress

/-- How a pass ends without a report. -/
inductive Escape
  | setting (e : SettingError)
  /-- A path that cannot be asked about. -/
  | lookup (e : LookupError)
  /-- The path at which links turn in a circle. -/
  | circularPath (path : Text)
  /-- A path that nothing can have. -/
  | path (e : Disk.PathError)
  /-- The span of a unit cuts through a character. -/
  | span (e : Utf8.DecodeError)
  /-- A name of which no structural id can be made. -/
  | encode (e : EncodeError)
  /-- A stored key that is no text, where the start of a text was asked for. -/
  | keyWithoutStart
  /-- Stored keys that do not compare. -/
  | keysWithoutOrder
  /-- The embedder failed on a file without units. -/
  | noUnits
deriving DecidableEq, Repr

def Escape.message : Escape → Text
  | .setting e => e.message
  | .lookup _ => "A path leads nowhere"
  | .circularPath circle => "Symlink loop from " ++ Text.quoted circle
  | .path (.encode e) => e.message
  | .path .nullCharacter => "embedded null byte"
  | .span e => e.message
  | .encode e => e.message
  | .keyWithoutStart => "object has no attribute 'startswith'"
  | .keysWithoutOrder => "'<' not supported"
  | .noUnits => Embedder.missingVector

/-- The path that an absolute one leads to, without links. -/
def withoutLinks (disk : Disk) (path : SourcePath) : Except Escape SourcePath :=
  (disk.resolve path).mapError fun
    | .circular circle => .circularPath circle.text
    | .path e => .path e

/-- The indexer of the project at `root`. -/
structure Indexer (σ : Type) where
  /-- The path of the project without links. -/
  root : SourcePath
  config : Value
  extraction : Extract.Settings
  /-- Whether stored units that a pass did not find again are deleted. -/
  pruneStale : Bool
  /-- How many files are embedded at the same time. -/
  maxConcurrency : Nat
  embedder : Embedder σ
  index : VectorIndex

namespace Indexer

/-- The name of the project: its path in writing. -/
def project {σ : Type} (ix : Indexer σ) : Text := ix.root.text

/-- A limit below one counts as one, and an embedder that is not reentrant takes one call at a
time. -/
def concurrency (reentrant : Bool) (limit : Int) : Nat :=
  if reentrant then (max 1 limit).toNat else 1

/-- The indexer that a configuration describes. -/
def ofConfig {σ : Type} (root : SourcePath) (config : Value) (embedder : Embedder σ)
    (index : VectorIndex) : Except SettingError (Indexer σ) := do
  let part ← config.field "indexing" (.dict [])
  let scheme ← part.field "id_scheme" (.text "ordinal")
  let strict ← part.field "strict_parsing" (.bool true)
  let scheme ← Extract.schemeOf scheme
  let prune ← part.field "prune_stale" (.bool true)
  let limit ← (← config.field "embedding" (.dict [])).field "max_concurrency" (.int 1)
  return {
    root := root
    config := config
    extraction := ⟨scheme, strict.truthy⟩
    pruneStale := prune.truthy
    maxConcurrency := concurrency embedder.reentrant (← limit.integer)
    embedder := embedder
    index := index }

/-! ## Paths -/

/-- The path that a written one means, seen from the project. -/
def absolute {σ : Type} (ix : Indexer σ) (path : SourcePath) : SourcePath :=
  ix.root.join path

/-- The path without links as seen from the project. -/
def relative {σ : Type} (ix : Indexer σ) (disk : Disk) (path : SourcePath) :
    Except Escape Text := do
  return ix.root.relativeTo (← withoutLinks disk path)

end Indexer

end CodeAtlas
