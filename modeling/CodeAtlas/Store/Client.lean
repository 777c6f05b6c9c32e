import CodeAtlas.Store.Collection
import CodeAtlas.Value.Text

/-!
# The store's client

All work on a collection goes through a client, which keeps a log of its calls. A call may be made
to fail: a fault on a method lets a number of calls pass and then refuses every further one. A call
is logged before it is refused, and a refused call changes nothing. Not every text can name a
collection.
-/

namespace CodeAtlas

inductive Method
  | collectionExists
  | getCollection
  | createCollection
  | createPayloadIndex
  | upsert
  | queryPoints
  | delete
  | scroll
  | count
  | deleteCollection
deriving DecidableEq, Repr

/-- The name of a method, as the log and the faults have it. -/
def Method.text : Method → Text
  | .collectionExists => "collection_exists"
  | .getCollection => "get_collection"
  | .createCollection => "create_collection"
  | .createPayloadIndex => "create_payload_index"
  | .upsert => "upsert"
  | .queryPoints => "query_points"
  | .delete => "delete"
  | .scroll => "scroll"
  | .count => "count"
  | .deleteCollection => "delete_collection"

def Method.all : List Method := [
  .collectionExists, .getCollection, .createCollection, .createPayloadIndex, .upsert, .queryPoints,
  .delete, .scroll, .count, .deleteCollection]

def Method.ofText? (name : Text) : Option Method := Method.all.find? (·.text == name)

/-- A call with its arguments. -/
inductive Call
  | collectionExists
  | getCollection
  | createCollection (dimension : Nat)
  | createPayloadIndex (field : Text)
  | upsert (ids : List PointId)
  | queryPoints (limit : Int) (withPayload : Bool)
  | delete (ids : List PointId)
  | scroll (filter : PayloadFilter) (limit : Nat) (offset : Option PointId)
  | count
  | deleteCollection
deriving DecidableEq, Repr

def Call.method : Call → Method
  | .collectionExists => .collectionExists
  | .getCollection => .getCollection
  | .createCollection _ => .createCollection
  | .createPayloadIndex _ => .createPayloadIndex
  | .upsert _ => .upsert
  | .queryPoints .. => .queryPoints
  | .delete _ => .delete
  | .scroll .. => .scroll
  | .count => .count
  | .deleteCollection => .deleteCollection

def PointId.value : PointId → Value
  | .number n => .int n
  | .uuid s => .text s

/-- What the log says of the arguments of a call. -/
def Call.arguments : Call → List Value
  | .createCollection dimension => [.int dimension, .text "Cosine"]
  | .createPayloadIndex field => [.text field, .text "keyword"]
  | .upsert ids | .delete ids => [.list (ids.map PointId.value), .bool true]
  | .queryPoints limit withPayload =>
    [.int limit, if withPayload then .bool true else .list [.text "key"]]
  | .scroll filter limit offset =>
    [if filter.isEmpty then .null else .list (filter.map fun (k, s) => .list [.text k, s.value]),
      .int limit, (offset.map PointId.value).getD .null]
  | .count => [.bool true]
  | .collectionExists | .getCollection | .deleteCollection => []

/-- The line of a call in the log. -/
def Call.entry (c : Call) : Value := .list (.text c.method.text :: c.arguments)

/-- The text of a refusal, and how many calls still pass. -/
structure Fault where
  message : Text
  after : Nat
deriving DecidableEq, Repr

/-- Why a call failed. -/
inductive ClientError
  /-- The call was refused. -/
  | refused (message : Text)
  /-- The vector of a query does not fit the collection. -/
  | vectorSize (given dimension : Nat)
  /-- The vector of a point does not fit the collection. -/
  | pointSize (given dimension : Nat)
  /-- A point has a vector without places. -/
  | emptyPoint
  | noCollection (name : Text)
  /-- A value that can name no collection. -/
  | badName (name : Text)
  /-- A stored key that is a list or a dictionary. -/
  | badKey
  /-- Vectors with names have not one dimension. -/
  | namedVectors
deriving DecidableEq, Repr

def ClientError.message : ClientError → Text
  | .refused message => message
  | .vectorSize given dimension =>
    "vector of size " ++ toString given ++ " in a collection of size " ++ toString dimension
  | .pointSize given dimension =>
    "Wrong input: Vector dimension error: expected dim: " ++ toString dimension ++ ", got " ++
      toString given ++ " for vector ''"
  | .emptyPoint => "Wrong input: Dense vector must not be empty for vector ''"
  | .noCollection name => "Collection " ++ name ++ " not found"
  | .badName name => "Collection name " ++ name ++ " is not allowed"
  | .badKey => "a list or a dictionary is no key"
  | .namedVectors => "'dict' object has no attribute 'size'"

def forbiddenInNames : List CodePoint := [
  '<', '>', ':', '"', '/', '\\', '|', '?', '*', '\x00', '\x1f']

/-- Names are texts of 1 to 255 characters, none of them forbidden, and lead to no other folder. -/
def isCollectionName : Value → Bool
  | .text name =>
    0 < name.length && name.length ≤ 255 && !name.toList.any forbiddenInNames.contains &&
      name != "." && name != ".."
  | _ => false

/-- Whether a collection can be looked for: not under an empty name, and not under a value that is
no key. -/
def canBeLookedFor : Value → Bool
  | .text name => !name.isEmpty
  | .list _ | .dict _ => false
  | _ => true

/-- A client for the collection called `name`. -/
structure Client where
  /-- A text, unless something else was configured. -/
  name : Value
  collection : Option Collection
  faults : List (Method × Fault)
  /-- The calls made, in order. -/
  calls : List Call

abbrev ClientM := ExceptT ClientError (StateM Client)

namespace Client

def fresh (name : Value) : Client := ⟨name, none, [], []⟩

/-- Lets one call pass the faults: the faults afterwards, or the text of the refusal. -/
def passFaults (m : Method) : List (Method × Fault) → Except Text (List (Method × Fault))
  | [] => .ok []
  | (k, f) :: rest =>
    if k = m then
      match f.after with
      | 0 => .error f.message
      | n + 1 => .ok ((k, { f with after := n }) :: rest)
    else (passFaults m rest).map ((k, f) :: ·)

/-- Logs a call and lets it pass or fail. -/
def perform (call : Call) : ClientM Unit := do
  modify fun c => { c with calls := c.calls ++ [call] }
  match passFaults call.method (← get).faults with
  | .error message => throw (.refused message)
  | .ok faults => modify fun c => { c with faults := faults }

/-- The collection, which has to exist. -/
def existing : ClientM Collection := do
  match (← get).collection with
  | some c => return c
  | none => throw (.noCollection (← get).name.plain)

def setCollection (collection : Option Collection) : ClientM Unit :=
  modify fun c => { c with collection := collection }

/-! ## Calls -/

/-- Whether the collection exists. -/
def collectionExists : ClientM Bool := do
  perform .collectionExists
  let c ← get
  if canBeLookedFor c.name then return c.collection.isSome else throw (.badName c.name.plain)

def getDimension : ClientM Nat := do
  perform .getCollection
  match (← existing).dimension with
  | some dimension => return dimension
  | none => throw .namedVectors

def createCollection (dimension : Nat) : ClientM Unit := do
  perform (.createCollection dimension)
  let name := (← get).name
  if isCollectionName name then setCollection (some ⟨some dimension, []⟩)
  else throw (.badName name.plain)

def createPayloadIndex (field : Text) : ClientM Unit := perform (.createPayloadIndex field)

def upsert (points : List Point) : ClientM Unit := do
  perform (.upsert (points.map (·.id)))
  setCollection (some ((← existing).upsert points))

def queryPoints (v : Embedding) (limit : Int) (withPayload : Bool) :
    ClientM (List (Point × Score)) := do
  perform (.queryPoints limit withPayload)
  let c ← existing
  match c.dimension with
  | some dimension =>
    if v.length = dimension then return c.nearest v limit.toNat
    else throw (.vectorSize v.length dimension)
  | none => throw .namedVectors

def delete (ids : List PointId) : ClientM Unit := do
  perform (.delete ids)
  setCollection (some ((← existing).delete ids))

def scroll (filter : PayloadFilter) (limit : Nat) (offset : Option PointId) :
    ClientM (List Point × Option PointId) := do
  perform (.scroll filter limit offset)
  return (← existing).page filter limit offset

def count : ClientM Nat := do
  perform .count
  return (← existing).points.length

def deleteCollection : ClientM Unit := do
  perform .deleteCollection
  setCollection none

/-- Writes a point past the log and the faults. -/
def putPoint (c : Client) (p : Point) : Except ClientError Client :=
  match c.collection with
  | none => .error (.noCollection c.name.plain)
  | some col =>
    match col.dimension with
    | none => .error .namedVectors
    | some dimension =>
      if p.vector.isEmpty then .error .emptyPoint
      else if p.vector.length = dimension then .ok { c with collection := some (col.upsert [p]) }
      else .error (.pointSize p.vector.length dimension)

/-- The points of the collection, none if it does not exist. -/
def points (c : Client) : List Point := (c.collection.map (·.points)).getD []

end Client

end CodeAtlas
