import CodeAtlas.Search.Ranking
import CodeAtlas.Embed.Embedder
import CodeAtlas.Store.Index
import CodeAtlas.Value.Limit

/-!
# Searching

A query is embedded and the most similar units are shown as hits, the best first. A blank query or
a limit that is not positive asks nothing of anyone.
-/

namespace CodeAtlas

/-- A unit as it is shown. File, token and snippet are what the index holds, which is text unless
something else was stored. -/
structure SearchHit where
  file : Value
  token : Value
  snippet : Value
  score : Text
deriving Repr

namespace SearchHit

/-- A value of the metadata, or the placeholder if it is missing or empty. -/
def shown (metadata : Fields) (key placeholder : Text) : Value :=
  match metadata.get? key with
  | some v => if v.truthy then v else .text placeholder
  | none => .text placeholder

/-- The fields of metadata; metadata that count as nothing have none. -/
def fieldsOf (metadata : Value) : Except SettingError Fields :=
  match metadata with
  | .dict fs => .ok fs
  | v => if v.truthy then .error .noSuchPart else .ok []

def ofMatch (m : IndexMatch) : Except SettingError SearchHit := do
  let fields ← fieldsOf m.metadata
  return {
    file := shown fields "filename" "Unknown file"
    token := shown fields "token" "[Unknown]"
    snippet := shown fields "code" "[No code]"
    score := m.score.fixed 3 }

/-- The characters up to a place that counts from the end if it is negative. -/
def cut (cs : List CodePoint) (stop : Int) : List CodePoint :=
  if 0 ≤ stop then cs.take stop.toNat else cs.take (cs.length - stop.natAbs)

/-- The snippet in a message, cut if it is longer than the limit. -/
def excerpt (limit : Limit) (snippet : Text) : Except SettingError Text :=
  let cs := snippet.toList
  if limit.isBelow cs.length then do
    return Text.trimEnd (Text.ofList (cut cs (← limit.count)) ++ "\n...(truncated)...\n")
  else .ok (Text.trimEnd snippet)

/-- The excerpt of a snippet, which has to be text: of anything else either the length or the text
within the limit is missing. -/
def excerptOf (limit : Limit) : Value → Except SettingError Text
  | .text s => excerpt limit s
  | .list items => .error (if limit.isBelow items.length then .wrongType else .noSuchPart)
  | .dict fields => .error (if limit.isBelow fields.length then .wrongType else .noSuchPart)
  | _ => .error .wrongType

def paragraph (limit : Limit) (h : SearchHit) : Except SettingError Text := do
  let code ← excerptOf limit h.snippet
  return h.file.plain ++ " (" ++ h.token.plain ++ ")\n```\n" ++ code ++ "\n```\nSimilarity: " ++ h.score

/-- The message that shows the hits; without hits the limit does not count. -/
def message (maxChars : Value) (hits : List SearchHit) : Except SettingError Text :=
  if hits.isEmpty then .ok "No similar matches found."
  else do
    let limit ← Limit.ofValue maxChars
    let paragraphs ← hits.mapM (paragraph limit)
    return "Function matches found:\n\n" ++ Text.intercalate "\n\n" paragraphs

/-- Snippets longer than this are cut. -/
def defaultMaxChars : Int := 1200

end SearchHit

namespace Search

/-- How a search fails. -/
inductive Error
  | embed (e : EmbedError)
  | index (f : IndexFailure)
  /-- What was asked, or what the index gave, is of a wrong kind. -/
  | setting (e : SettingError)
deriving DecidableEq, Repr

/-- The matches by score, the best first, equal ones in the order given. A score that is not a number
has no place in the order; then the comparisons made decide. -/
def ranked (ms : List IndexMatch) : List IndexMatch :=
  if ms.all fun m => m.score != .nan then sortBy (fun a b => !Score.lt a.score b.score) ms
  else Ranking.descending (fun a b => Score.lt a.score b.score) ms

/-- The first `limit` matches by score. -/
def best (limit : Int) (ms : List IndexMatch) : List IndexMatch := (ranked ms).take limit.toNat

/-- Whether a query asks for anything. -/
def asks (query : Text) (limit : Int) : Bool :=
  !Text.areBlank query && decide (0 < limit)

/-- The vector of a query. -/
def embedQuery {σ : Type} (e : Embedder σ) (query : Text) :
    StateM σ (Except EmbedError Embedding) := do
  match ← e.embedOne query with
  | .ok v => return .ok v
  | .error (.service err) => return .error err
  | .error f => return .error (.query f.message)

/-- The hits of a query: the embedder and then the index are asked, each once. -/
def hits {σ ρ : Type} (e : Embedder σ)
    (ask : Embedding → Int → StateM ρ (Except IndexFailure (List IndexMatch)))
    (query : Text) (limit : Int) :
    StateM (σ × ρ) (Except Error (List SearchHit)) := do
  if asks query limit then
    let (s, r) ← get
    let (embedded, s) := (embedQuery e query).run s
    match embedded with
    | .error err =>
      set (s, r)
      return .error (.embed err)
    | .ok v =>
      let (answer, r) := (ask v limit).run r
      set (s, r)
      match answer with
      | .error f => return .error (.index f)
      | .ok ms => return ((best limit ms).mapM SearchHit.ofMatch).mapError .setting
  else return .ok []

/-- The hits of a query under a limit that need not be an integer. A limit that is no number is
looked at once the query asks for something, and one that is not whole once the index has
answered. -/
def hitsWithin {σ ρ : Type} (e : Embedder σ)
    (ask : Embedding → Int → StateM ρ (Except IndexFailure (List IndexMatch)))
    (query : Text) (limit : Value) :
    StateM (σ × ρ) (Except Error (List SearchHit)) := do
  if Text.areBlank query then return .ok []
  else
    match Limit.ofValue limit with
    | .error err => return .error (.setting err)
    | .ok (.whole n) => hits e ask query n
    | .ok (.real x) =>
      if (Limit.real x).isAtMost 0 then return .ok []
      else
        match ← hits e ask query 1 with
        | .ok _ | .error (.setting _) => return .error (.setting .wrongType)
        | .error err => return .error err

/-- The limit that a configuration sets. -/
def topKOf (config : Value) : Except SettingError Int := do
  (← (← config.field "search" (.dict [])).field "top_k" (.int 3)).integer

end Search

end CodeAtlas
