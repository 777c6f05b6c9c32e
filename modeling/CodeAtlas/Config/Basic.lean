import CodeAtlas.Config.Pattern
import CodeAtlas.Value.Basic

/-!
# Configuration

A configuration is built in layers: defaults, then the environment, then the project folder, then
nested overrides, and last the globs of the exclude patterns. A dictionary laid over a dictionary
is merged key by key; anything else replaces what was there.
-/

namespace CodeAtlas.Config

def defaultExcludePatterns : List Text := [
  ".git/**", "node_modules/**", "dist/**", "build/**", ".venv/**", "venv/**", "__pycache__/**",
  "target/**", ".next/**", ".idea/**", ".vscode/**"]

/-- The environment variables that are set. -/
abbrev Environment := List (Text × Text)

/-! ## Layers -/

/-- A variable that is set, even to nothing, or else the default. -/
def fromEnvironment (env : Environment) (name : Text) (default : Value) : Value :=
  match env.lookup name with
  | some s => .text s
  | none => default

/-- Where the vector store is reached. -/
def storeAddress (env : Environment) : Except SettingError Fields := do
  let port ← (fromEnvironment env "QDRANT_PORT" (.int 6333)).integer
  return [
    ("host", fromEnvironment env "QDRANT_HOST" (.text "localhost")),
    ("port", .int port),
    ("url", fromEnvironment env "QDRANT_URL" .null),
    ("location", fromEnvironment env "QDRANT_LOCATION" .null),
    ("collection", fromEnvironment env "QDRANT_COLLECTION" .null)]

def modelName (env : Environment) : Text :=
  match env.lookup ("EMBEDDING_MODEL" : Text) with
  | some s => if s = "" then "sentence-transformers/all-MiniLM-L6-v2" else s
  | none => "sentence-transformers/all-MiniLM-L6-v2"

/-- The project folder: the one given, else the environment's if it is not empty. -/
def projectRoot (env : Environment) (folder : Option Text) : Value :=
  match folder, env.lookup ("PROJECT_ROOT" : Text) with
  | some s, _ => .text s
  | none, some s => if s = "" then .null else .text s
  | none, none => .null

/-- Defaults, environment and project folder. -/
def base (env : Environment) (folder : Option Text) : Except SettingError Fields := do
  let address ← storeAddress env
  return [
    ("project_root", projectRoot env folder),
    ("max_file_size_kb", .int 512),
    ("exclude_patterns", .list (defaultExcludePatterns.map .text)),
    ("indexing", .dict [
      ("id_scheme", .text "ordinal"),
      ("prune_stale", .bool true),
      ("strict_parsing", .bool true),
      ("index_on_startup", .bool true)]),
    ("embedding", .dict [
      ("backend", .text "sentence_transformers"),
      ("sentence_transformers_model", .text (modelName env)),
      ("max_input_tokens", .int 512),
      ("max_concurrency", .int 1)]),
    ("search", .dict [("top_k", .int 3)]),
    ("vector_store", .dict [
      ("backend", .text "qdrant"),
      ("batch_size", .int 128),
      ("qdrant", .dict address)])]

/-! ## Overrides -/

mutual

/-- One key of the overrides laid over the value it meets. -/
def mergeValue (old : Option Value) : Value → Value
  | .dict upper =>
    match old with
    | some (.dict lower) => .dict (mergeFields lower upper)
    | _ => .dict upper
  | v => v

/-- The overrides laid over the fields, key by key. -/
def mergeFields (lower : Fields) : Fields → Fields
  | [] => lower
  | (key, v) :: upper => mergeFields (lower.set key (mergeValue (lower.get? key) v)) upper

end

/-- Overrides that count as nothing change nothing; others must be a dictionary. -/
def applyOverrides (fields : Fields) (overrides : Value) : Except SettingError Fields :=
  if overrides.truthy then
    match overrides with
    | .dict upper => .ok (mergeFields fields upper)
    | _ => .error .noSuchPart
  else .ok fields

/-! ## Exclude globs -/

/-- The patterns that a value lists. -/
def patternList (v : Value) : Except SettingError (List Text) :=
  if !v.truthy then .ok []
  else do
    (← v.elements).mapM fun
      | .text s => .ok s
      | _ => .error .noSuchPart

/-- The configuration of a project. -/
def load (env : Environment) (folder : Option Text) (overrides : Value) :
    Except SettingError Fields := do
  let fields ← applyOverrides (← base env folder) overrides
  let patterns ← patternList ((fields.get? "exclude_patterns").getD .null)
  return fields.set "exclude_globs" (.list ((Pattern.expandAll patterns).map .text))

end CodeAtlas.Config
