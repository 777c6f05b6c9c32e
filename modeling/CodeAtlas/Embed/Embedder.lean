import CodeAtlas.Embed.Tokenizer
import CodeAtlas.Store.Collection
import CodeAtlas.Text.Blank
import CodeAtlas.Text.Lowercase
import CodeAtlas.Value.Text

/-!
# Embedding texts

An embedder turns texts into vectors. `ModelEmbedder` does so with a model that is loaded by its
first use: a failed load is tried again by the next call, a loaded model stays.
-/

namespace CodeAtlas

/-- Why texts could not be embedded. -/
inductive EmbedError
  | backend (shown : Text)
  | load (model : Text) (message : Text)
  | encode (texts : Nat) (message : Text)
  | query (message : Text)
  | file (filePath message : Text)
  | vectorCount (vectors units : Nat) (filePath : Text)
  /-- An error of an embedder that speaks for itself. -/
  | other (message : Text)
deriving DecidableEq, Repr

def EmbedError.message : EmbedError → Text
  | .backend shown => "Invalid embedding.backend: " ++ shown
  | .load model reason => "Could not load sentence-transformers model " ++ model ++ ": " ++ reason
  | .encode texts reason => "Embedding failed for " ++ toString texts ++ " texts: " ++ reason
  | .query reason => "Could not embed query: " ++ reason
  | .file filePath reason => "Embedding failed for " ++ filePath ++ ": " ++ reason
  | .vectorCount vectors units filePath =>
    "Embedder returned " ++ toString vectors ++ " vectors for " ++ toString units ++ " units of " ++
      filePath
  | .other reason => reason

/-- How a call of an embedder fails: by an embedding error, in a way of its own, or at a text that
cannot be encoded. -/
inductive EmbedFailure
  | service (e : EmbedError)
  | stray (message : Text)
  | encode (e : EncodeError)
deriving DecidableEq, Repr

def EmbedFailure.message : EmbedFailure → Text
  | .service e => e.message
  | .stray message => message
  | .encode e => e.message

/-- An embedder with state `σ`. A text may come from outside and hold surrogates. -/
structure Embedder (σ : Type) where
  /-- Whether calls may overlap. -/
  reentrant : Bool
  embed : List Text → StateM σ (Except EmbedFailure (List Embedding))

namespace Embedder

/-- What is said when a vector is missing. -/
def missingVector : Text := "list index out of range"

/-- The vector of a single text. -/
def embedOne {σ : Type} (e : Embedder σ) (text : Text) :
    StateM σ (Except EmbedFailure Embedding) := do
  match ← e.embed [text] with
  | .error f => return .error f
  | .ok [] => return .error (.stray missingVector)
  | .ok (v :: _) => return .ok v

end Embedder

/-! ## Model embedders -/

/-- What a model does on one call: loading and encoding may each fail with a text. -/
structure Model where
  load : Except Text Unit
  encode : List Text → Except Text (List Embedding)

/-- The settings of a model embedder. -/
structure ModelSettings where
  name : Value
  maxInputTokens : Int

/-- What a model embedder has done: whether its model is loaded, how often loading was tried, and
the lists of texts that the model was given. -/
structure ModelState where
  loaded : Bool
  loads : Nat
  inputs : List (List Text)

namespace ModelEmbedder

def unloaded : ModelState := ⟨false, 0, []⟩

/-- Loads the model unless it is loaded. -/
def ensureLoaded (settings : ModelSettings) (model : Model) :
    StateM ModelState (Except EmbedFailure Unit) := do
  if (← get).loaded then return .ok ()
  else
    modify fun s => { s with loads := s.loads + 1 }
    match model.load with
    | .error message => return .error (.service (.load settings.name.quoted message))
    | .ok () =>
      modify fun s => { s with loaded := true }
      return .ok ()

/-- A text that cannot be cut, as a failure of the call. -/
def cutFailure : Tokenizer.CutError → EmbedFailure
  | .refused message => .stray message
  | .encode e => .encode e
  | .setting e => .stray e.message

/-- The text as it is given to the model. -/
def cut {τ : Type} (t : Tokenizer τ) (settings : ModelSettings) (text : Text) :
    Except EmbedFailure (Text) :=
  (t.truncatePoints text (.whole settings.maxInputTokens)).mapError cutFailure

/-- The vectors of texts, each text cut to the limit; no text needs no model. -/
def embed {τ : Type} (t : Tokenizer τ) (settings : ModelSettings) (model : Model)
    (texts : List Text) :
    StateM ModelState (Except EmbedFailure (List Embedding)) := do
  if texts.isEmpty then return .ok []
  else
    match ← ensureLoaded settings model with
    | .error f => return .error f
    | .ok () =>
      match texts.mapM (cut t settings) with
      | .error f => return .error f
      | .ok inputs =>
        modify fun s => { s with inputs := s.inputs ++ [inputs] }
        match model.encode inputs with
        | .error message => return .error (.service (.encode texts.length message))
        | .ok vectors => return .ok vectors

/-- A model embedder takes one call at a time. -/
def embedder {τ : Type} (t : Tokenizer τ) (settings : ModelSettings) (model : Model) :
    Embedder ModelState := ⟨false, embed t settings model⟩

/-- How an embedder cannot be made. -/
inductive MakeError
  | embed (e : EmbedError)
  | setting (e : SettingError)
deriving DecidableEq, Repr

/-- The settings that a configuration gives. -/
def settingsOf (config : Value) : Except MakeError ModelSettings :=
  let read (v : Value) (key : Text) (default : Value) : Except MakeError Value :=
    (v.field key default).mapError .setting
  do
    let part ← read config "embedding" (.dict [])
    let backend ← read part "backend" (.text "sentence_transformers")
    let name := Text.lower (Text.trim backend.plain)
    if name ≠ "sentence_transformers" then throw (.embed (.backend (Text.quoted name)))
    let model ← read part "sentence_transformers_model"
      (.text "sentence-transformers/all-MiniLM-L6-v2")
    let limit ← read part "max_input_tokens" (.int 512)
    return ⟨model, ← limit.integer.mapError .setting⟩

end ModelEmbedder

end CodeAtlas
