import CodeAtlas.File.SourcePath
import CodeAtlas.Store.Index

/-!
# The index of a project

Which collection a project uses, how large its batches are and where the store is reached, as the
configuration says. The collection is the one named, else the configured one, else one named after
the project's folder.
-/

namespace CodeAtlas.VectorIndex

def isNameChar (c : Char) : Bool := c.isAlphanum || c == '_' || c == '-'

/-- How a code point of a folder stands in a name. -/
def nameChar : CodePoint → Char
  | .char c => if isNameChar c then c else '_'
  | .surrogate _ => '_'

/-- The collection named after a folder: letters, digits, `_` and `-` stay, and a name starts with
a letter or `_`. -/
def collectionOf (folder : Text) : Text :=
  let name := (SourcePath.ofText folder).name
  let cs := (if name = "" then "default" else name : Text).toList.map nameChar
  let starts := match cs.head? with
    | some c => c.isAlpha || c == '_'
    | none => true
  String.ofList (if starts then cs else '_' :: cs)

/-- Where the store is reached. -/
inductive Address
  | location (v : Value)
  | url (v : Value)
  | host (host : Value) (port : Int)

/-- The store's own part of the configuration. -/
def storeConfig (config : Value) : Except SettingError Value := do
  (← config.field "vector_store" (.dict [])).field "qdrant" (.dict [])

def addressOf (config : Value) : Except SettingError Address := do
  let store ← storeConfig config
  let location ← store.field "location" .null
  if location.truthy then return .location location
  let url ← store.field "url" .null
  if url.truthy then return .url url
  return .host (← store.field "host" (.text "localhost"))
    (← (← store.field "port" (.int 6333)).integer)

/-- The collection's name: `named` if it counts as one, else the configured one, else the
folder's. -/
def collectionValue (config : Value) (folder : Option Text) (named : Value) :
    Except SettingError Value := do
  if named.truthy then return named
  let configured ← (← storeConfig config).field "collection" .null
  if configured.truthy then return configured
  match folder with
  | some f => return .text (collectionOf f)
  | none => throw .noCollection

def batchSizeOf (config : Value) : Except SettingError Int := do
  (← (← config.field "vector_store" (.dict [])).field "batch_size" (.int 128)).integer

/-- The index of a project. -/
def ofConfig (config : Value) (folder : Option Text) : Except SettingError VectorIndex := do
  let collection ← collectionValue config folder .null
  return make collection (← batchSizeOf config)

end CodeAtlas.VectorIndex
