import CodeAtlas.Config.Basic
import CodeAtlas.Service.Http
import CodeAtlas.Store.Settings

/-!
# The application

An application is a service made from a configuration, or from the environment where no
configuration is given. It starts a full pass at once unless the configuration says otherwise.
-/

namespace CodeAtlas.App

variable {σ : Type}

/-- The configuration given, or the environment's if that one counts as nothing. -/
def configOf (env : Config.Environment) (given : Value) : Except SettingError Value :=
  if given.truthy then .ok given else (Config.load env none .null).map .dict

/-- The index of the project that a configuration names, seen from the working folder. -/
def indexOf (config : Value) (folder : SourcePath) : Except SettingError VectorIndex := do
  let root ← Service.rootOf config folder
  VectorIndex.ofConfig config (some root.text)

/-- The service of an application in the working folder. -/
def create (env : Config.Environment) (given : Value) (folder : SourcePath)
    (embedder : Embedder σ) (index : VectorIndex) (workspace : Workspace σ) :
    Except Escape (Service σ) := do
  let config ← (configOf env given).mapError .setting
  Service.ofConfig config folder embedder index workspace

/-- Whether a full pass is to be started at once. -/
def indexesOnStartup (config : Value) : Except SettingError Bool := do
  return (← (← config.field "indexing" (.dict [])).field "index_on_startup" (.bool true)).truthy

/-- Starts the full pass that is due at once. -/
def startup (s : Service σ) : Except SettingError (Service σ) := do
  if ← indexesOnStartup s.indexer.config then return s.start?.getD s else return s

end CodeAtlas.App
