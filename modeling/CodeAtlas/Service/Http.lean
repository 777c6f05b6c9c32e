import CodeAtlas.Service.Basic
import CodeAtlas.Service.Field
import CodeAtlas.Service.Target
import CodeAtlas.Text.Encoding

/-!
# The service over HTTP

Requests to a service and its answers. A request may start a full pass or put off the indexing of a
file: `Service.settle` does that work once the answer has been given.
-/

namespace CodeAtlas

/-- The body of a request. -/
inductive Body
  | empty
  /-- A text that is no JSON document. -/
  | malformed
  /-- Bytes that are no text. -/
  | unreadable
  | json (document : Value)

/-- The body that bytes write. -/
def Body.ofBytes (bytes : List UInt8) : Body :=
  if bytes.isEmpty then .empty
  else
    match (Encoding.detect bytes).decode? bytes with
    | none => .unreadable
    | some cs =>
      match Json.read? cs with
      | some document => .json document
      | none => .malformed

/-- Why a body cannot be sent. -/
inductive SendError
  | notFinite
  | encode (e : EncodeError)
deriving DecidableEq, Repr

def SendError.message : SendError → String
  | .notFinite => "Out of range float values are not JSON compliant"
  | .encode e => e.message

/-- The body that sends a document. -/
def Body.ofDocument (document : Value) : Except SendError Body :=
  match document with
  | .null => .ok .empty
  | document =>
    if !Json.isFinite document then .error .notFinite
    else
      match (Json.write document).encodeError? with
      | some e => .error (.encode e)
      | none => .ok (.json document)

/-- The body that sends a text. -/
def Body.ofText (text : Text) : Except SendError Body :=
  (text.asString.mapError .encode).map fun s => .ofBytes (Utf8.encode s)

structure Request where
  method : String
  path : String
  query : List (Text × Text)
  body : Body

/-- A letter in capitals; of other letters only those whose capitals may be part of a method. -/
def capitals : Char → List Char
  | 'ſ' => ['S']
  | 'ﬅ' | 'ﬆ' => ['S', 'T']
  | c => [c.toUpper]

/-- Why there is no request. -/
inductive RequestError
  /-- The text writes no target. -/
  | target
  /-- The target holds a surrogate. -/
  | encode (e : EncodeError)
  | parameters (e : Target.ParameterError)
  | body (e : SendError)
deriving DecidableEq, Repr

/-- The request for a target. The case of the method does not count, and parameters replace the
query of the target. -/
def Request.ofTarget (method : String) (target : Text) (params : Value)
    (body : Except SendError Body) : Except RequestError Request := do
  if let some e := target.toList.findSome? fun c => CodePoint.encodeError? 0 [c] then
    throw (.encode e)
  let some t := Target.parse? (← target.asString.mapError .encode) | throw .target
  let query ← match params with
    | .null => pure t.query
    | params => (Target.queryOfValue params).mapError .parameters
  return ⟨String.ofList (method.toList.flatMap capitals), t.path, query, ← body.mapError .body⟩

inductive Response
  | json (status : Nat) (body : Value)
  /-- An answer whose body says nothing of the project. -/
  | bare (status : Nat)
  /-- An answer without a body. -/
  | empty
  /-- A page in markup. -/
  | page
  /-- A stream of progress events. -/
  | events (data : List Value)

namespace Response

def detail (status : Nat) (message : Text) : Response :=
  .json status (.dict [("detail", .text message)])

def notFound : Response := detail 404 "Not Found"

def methodNotAllowed : Response := detail 405 "Method Not Allowed"

/-- The path without its slashes at the end is the right one. -/
def redirect : Response := .empty

/-- The bytes of the request are no document. -/
def badRequest : Response := detail 400 "There was an error parsing the body"

/-- The request cannot be read. -/
def invalid : Response := .bare 422

/-- The work ended without a report. -/
def failed : Response := .bare 500

/-- The answer to a request with these wrong parts, which it shows: it fails if it cannot. -/
def refusal (parts : List Value) : Response :=
  if parts.all Value.isShowable then invalid else failed

/-- Whether the answer can be sent: its body has to be encodable. -/
def isSendable : Response → Bool
  | .json _ body => (Json.write body).encodeError?.isNone
  | _ => true

end Response

/-- What can be asked of a service. -/
inductive Route
  /-- A page that describes the service. -/
  | page
  /-- What such a page shows, as a document. -/
  | description
  /-- Only whether there is a page. -/
  | pageHead
  | index
  | indexFile
  | removeFile
  | status
  | progress
  | search
  | health
deriving DecidableEq, Repr

namespace Route

/-- The methods of a page. -/
def pageMethods : List (String × Route) := [("GET", .page), ("HEAD", .pageHead)]

/-- The paths with the methods that each takes. -/
def table : List (String × List (String × Route)) := [
  ("/openapi.json", [("GET", .description), ("HEAD", .pageHead)]),
  ("/docs", pageMethods),
  ("/docs/oauth2-redirect", pageMethods),
  ("/redoc", pageMethods),
  ("/api/index", [("POST", .index)]),
  ("/api/index/file", [("POST", .indexFile), ("DELETE", .removeFile)]),
  ("/api/index/status", [("GET", .status)]),
  ("/api/index/progress", [("GET", .progress)]),
  ("/api/search", [("POST", .search)]),
  ("/api/health", [("GET", .health)])]

/-- The methods that a path takes; a line break at its end does not count. -/
def methods? (path : String) : Option (List (String × Route)) :=
  match table.lookup path with
  | some methods => some methods
  | none => (table.find? fun entry => entry.1 ++ "\n" == path).map (·.2)

/-- The path without the slashes at its end. -/
def withoutSlashes (path : String) : String :=
  String.ofList (path.toList.reverse.dropWhile (· == '/')).reverse

/-- The route of a request, or the answer that there is none. -/
def of (r : Request) : Except Response Route :=
  match methods? r.path with
  | none =>
    .error (if (methods? (withoutSlashes r.path)).isSome then .redirect else .notFound)
  | some methods =>
    match methods.lookup r.method with
    | none => .error .methodNotAllowed
    | some route => .ok route

end Route

namespace Service

variable {σ : Type}

/-! ## Answers -/

def reportValue (report : Option Report) : Value :=
  match report with
  | some r => .dict r.fields
  | none => .null

/-- The answer to an indexing request. -/
def indexAnswer (s : Service σ) (status : Text) (report : Option Report) : Value :=
  .dict [("status", .text status), ("project", .text s.indexer.project),
    ("report", reportValue report)]

def progressEvent (s : Service σ) : Value :=
  .dict (("running", .bool s.running) :: s.progress.fields)

def hitValue (h : SearchHit) : Value :=
  .dict [("file", h.file), ("token", h.token), ("snippet", h.snippet), ("score", .text h.score)]

/-! ## Requests -/

/-- `POST /api/index`: starts a full pass, and waits for its report if asked to. -/
def handleIndex (body : Fields) (s : Service σ) : Response × Service σ :=
  match Field.optional body "wait" Field.condition? with
  | .error part => (.refusal [part], s)
  | .ok wait =>
    match s.start? with
    | none => (.detail 409 (busyMessage s.indexer.project), s)
    | some s =>
      if wait.getD false then
        match s.resume never with
        | (some (.ok report), s) =>
          let status := if report.success then "indexed" else "error"
          (.json 200 (s.indexAnswer status (some report)), s)
        | (_, s) => (.failed, s)
      else (.json 200 (s.indexAnswer "started" none), s)

/-- `POST /api/index/file`: puts off indexing a file. -/
def handleIndexFile (body : Fields) (s : Service σ) : Response × Service σ :=
  match Field.required body "path" Field.text? with
  | .error part => (.refusal [part], s)
  | .ok path =>
    (.json 202 (s.indexAnswer "scheduled" none),
      { s with pending := s.pending ++ [.ofText path] })

/-- `DELETE /api/index/file`: removes the units of a file, the last one if several are given. -/
def handleRemoveFile (query : List (Text × Text)) (s : Service σ) : Response × Service σ :=
  match query.reverse.lookup ("path" : Text) with
  | none => (.invalid, s)
  | some path =>
    match s.removeFile (.ofText path) with
    | (.error _, s) => (.failed, s)
    | (.ok report, s) =>
      match report.error with
      | some message => (.detail 503 message, s)
      | none => (.json 200 (s.indexAnswer "removed" (some report)), s)

/-- `GET /api/index/status`. -/
def handleStatus (s : Service σ) : Response :=
  .json 200 (.dict [
    ("project", .text s.indexer.project),
    ("running", .bool s.running),
    ("progress", .dict s.progress.fields),
    ("last_report", reportValue s.lastReport)])

/-- `GET /api/index/progress`: tells of the progress, and again after the full pass under way. -/
def handleProgress (s : Service σ) : Response × Service σ :=
  if s.running then
    let after := (s.resume never).2
    (.events [s.progressEvent, after.progressEvent], after)
  else (.events [s.progressEvent], s)

/-- A request may narrow the number of hits, never widen it. -/
def searchLimit (s : Service σ) (asked : Option Int) : Int :=
  match asked with
  | some k => min k s.topK
  | none => s.topK

/-- The answer that shows hits. -/
def searchAnswer (hits : List SearchHit) : Response :=
  match SearchHit.message (.int SearchHit.defaultMaxChars) hits with
  | .ok message =>
    .json 200 (.dict [("results", .list (hits.map hitValue)), ("message", .text message)])
  | .error _ => .failed

/-- `POST /api/search`. -/
def handleSearch (asking : Asking) (body : Fields) (s : Service σ) : Response × Service σ :=
  match Field.required body "query" Field.text?,
    Field.optional body "top_k" Field.optionalInteger? with
  | .ok query, .ok asked =>
    match s.search asking query (s.searchLimit asked.join) with
    | (.error (.embed e), s) => (.detail 503 e.message, s)
    | (.error (.index (.service e)), s) => (.detail 503 e.message, s)
    | (.error _, s) => (.failed, s)
    | (.ok hits, s) => (searchAnswer hits, s)
  | .error part, .ok _ => (.refusal [part], s)
  | .ok _, .error part => (.refusal [part], s)
  | .error part, .error other => (.refusal [part, other], s)

/-- `GET /api/health`. -/
def handleHealth (s : Service σ) : Response × Service σ :=
  let answer (status : Text) (units : Value) : Response :=
    .json 200 (.dict [("status", .text status), ("project", .text s.indexer.project),
      ("indexed_units", units)])
  match s.count with
  | (.ok n, s) => (answer "ok" (.int n), s)
  | (.error (.service _), s) => (answer "degraded" .null, s)
  | (.error _, s) => (.failed, s)

/-- Hands over the fields of the body, which has to be an object. -/
def withBody (r : Request) (s : Service σ)
    (handle : Fields → Service σ → Response × Service σ) : Response × Service σ :=
  match r.body with
  | .json (.dict fields) => handle fields s
  | .json document => (.refusal [document], s)
  | .empty | .malformed => (.invalid, s)
  | .unreadable => (.badRequest, s)

/-- What is said to a request, before it is sent. -/
def reply (asking : Asking) (r : Request) (s : Service σ) : Response × Service σ :=
  match Route.of r with
  | .error response => (response, s)
  | .ok .page => (.page, s)
  | .ok .pageHead => (.empty, s)
  | .ok .description => (.bare 200, s)
  | .ok .index => s.withBody r handleIndex
  | .ok .indexFile => s.withBody r handleIndexFile
  | .ok .removeFile => s.handleRemoveFile r.query
  | .ok .status => (s.handleStatus, s)
  | .ok .progress => s.handleProgress
  | .ok .search => s.withBody r (handleSearch asking)
  | .ok .health => s.handleHealth

/-- The answer to a request. What is put off until after an answer is not done if the answer
cannot be sent. -/
def answer (asking : Asking) (r : Request) (s : Service σ) : Response × Service σ :=
  let (response, after) := s.reply asking r
  if response.isSendable then (response, after)
  else (.failed, { after with pending := s.pending })

end Service

end CodeAtlas
