import CodeAtlas.Store.Batch
import CodeAtlas.Store.Client
import CodeAtlas.Value.Limit
import CodeAtlas.Value.Text

/-!
# The vector index

A map from keys to vectors and metadata, kept in a collection. Keys become point ids, and the key
itself is stored in the payload. The collection is made by the first write.
-/

namespace CodeAtlas

/-- Why the index could not do its work. -/
inductive StoreError
  | unreachable (collection : Text) (cause : ClientError)
  | otherDimension (collection : Text) (existing items : Nat)
  | create (collection : Text) (cause : ClientError)
  | noVector
  | mixedDimension (id : Text) (found expected : Nat)
  | upsert (batch batches points : Nat) (cause : ClientError)
  | query (collection : Text) (cause : ClientError)
  | delete (points : Nat) (cause : ClientError)
  | list (collection : Text) (cause : ClientError)
  | count (collection : Text) (cause : ClientError)
  | clear (collection : Text) (cause : ClientError)
  /-- A call that failed in a way of its own. -/
  | call (name message : Text)
deriving DecidableEq, Repr

namespace StoreError

def message : StoreError → Text
  | .unreachable collection cause =>
    "Cannot reach collection '" ++ collection ++ "': " ++ cause.message
  | .otherDimension collection existing items =>
    "Collection '" ++ collection ++ "' exists with dimension " ++ toString existing ++
      ", but items have dimension " ++ toString items ++
      ". Please delete the collection and re-index."
  | .create collection cause =>
    "Failed to create collection '" ++ collection ++ "': " ++ cause.message
  | .noVector => "Items must contain embeddings (non-empty 'vector')."
  | .mixedDimension id found expected =>
    "Item " ++ id ++ " has different dimension: " ++ toString found ++ " vs expected " ++
      toString expected
  | .upsert batch batches points cause =>
    "Failed to upsert batch " ++ toString batch ++ "/" ++ toString batches ++ " (" ++
      toString points ++ " points): " ++ cause.message
  | .query collection cause =>
    "Error searching in collection '" ++ collection ++ "': " ++ cause.message
  | .delete points cause => "Failed to delete " ++ toString points ++ " points: " ++ cause.message
  | .list collection cause => "Failed to list points in '" ++ collection ++ "': " ++ cause.message
  | .count collection cause => "Failed to count points in '" ++ collection ++ "': " ++ cause.message
  | .clear collection cause => "Error clearing collection '" ++ collection ++ "': " ++ cause.message
  | .call name message => "Vector index call " ++ name ++ " failed: " ++ message

/-- The failure of the client below, if there is one. -/
def cause? : StoreError → Option ClientError
  | .unreachable _ c | .create _ c | .upsert _ _ _ c | .query _ c | .delete _ c | .list _ c
  | .count _ c | .clear _ c => some c
  | .otherDimension .. | .noVector | .mixedDimension .. | .call .. => none

end StoreError

/-- Why a key has no point id. -/
inductive KeyError
  | encode (e : EncodeError)
  /-- A key that is no text. -/
  | noText
deriving DecidableEq, Repr

def KeyError.message : KeyError → Text
  | .encode e => e.message
  | .noText => "encoding without a string argument"

/-- How an index operation fails: by an error of the index, or past it. -/
inductive IndexFailure
  | service (e : StoreError)
  | client (e : ClientError)
  /-- An item whose file cannot group anything. -/
  | ungrouped
  /-- An item whose metadata has no fields. -/
  | noFields
  | key (e : KeyError)
deriving DecidableEq, Repr

def IndexFailure.message : IndexFailure → Text
  | .service e => e.message
  | .client e => e.message
  | .ungrouped => "unhashable type"
  | .noFields => "object has no attribute 'get'"
  | .key e => e.message

abbrev IndexM := ExceptT IndexFailure (StateM Client)

/-- One result of a query. -/
structure IndexMatch where
  /-- The stored key, which is text unless something else was stored. -/
  id : Value
  score : Score
  /-- What is stored beside the vector: fields, unless the index gives something else. -/
  metadata : Value

/-- An index: the collection it is kept in, and how many items one write takes. -/
structure VectorIndex where
  /-- The name of the collection: a text, unless something else was configured. -/
  collection : Value
  batchSize : Nat

namespace VectorIndex

/-- A batch size below one counts as one. -/
def make (collection : Value) (batchSize : Int) : VectorIndex :=
  ⟨collection, (max 1 batchSize).toNat⟩

/-- The collection's name in writing. -/
def name (ix : VectorIndex) : Text := ix.collection.plain

/-- More than any batch holds. -/
def unbounded : Nat := Nat.pow 2 64

/-- The batch size that a number asks for. -/
def batchSizeFor (size : Value) : Except SettingError Nat := do
  match ← Limit.ofValue size with
  | .whole i => return (make .null i).batchSize
  | .real x =>
    match x.toRat? with
    | some q => return (make .null q.floor).batchSize
    | none => return if x = Binary64.infinity false then unbounded else 1

/-- The payload field that holds the key. -/
def keyField : Text := "key"

/-- The payload fields that listings filter by. -/
def filterFields : List Text := ["file_path", "project"]

/-- Listings take this many points at a time. -/
def pageSize : Nat := 256

/-- A client's failure as one of the index. -/
def guarded {α : Type} (f : ClientError → StoreError) (m : ClientM α) : IndexM α :=
  m.adapt fun e => .service (f e)

def exists? (ix : VectorIndex) : IndexM Bool :=
  guarded (.unreachable ix.name) Client.collectionExists

/-- The dimension of the collection, if it exists. -/
def dimension? (ix : VectorIndex) : IndexM (Option Nat) := do
  if ← ix.exists? then
    return some (← Client.getDimension.adapt .client)
  else return none

/-- Makes the collection, or checks that its dimension fits. -/
def ensureCollection (ix : VectorIndex) (dimension : Nat) : IndexM Unit := do
  match ← ix.dimension? with
  | some existing =>
    if existing ≠ dimension then
      throw (.service (.otherDimension ix.name existing dimension))
  | none =>
    guarded (.create ix.name) do
      Client.createCollection dimension
      filterFields.forM Client.createPayloadIndex

/-! ## Writing -/

/-- An item as it is handed over: its key and its metadata need not be of the right kind. -/
structure GivenItem where
  key : Value
  vector : Embedding
  metadata : Value

/-- What a write needs to know of the items of a kind. -/
structure ItemKind (α : Type) where
  /-- What an item is called in messages. -/
  name : α → Text
  vector : α → Embedding
  group : α → Except IndexFailure Batch.GroupKey
  /-- Why an item's key has no point id. -/
  keyError? : α → Option KeyError
  /-- The point of an item whose key has an id. -/
  point : α → Point

/-- The point of an item. -/
def pointOf (item : IndexItem) : Point :=
  ⟨PointId.ofKey item.id, item.vector, item.metadata.set keyField (.text item.id)⟩

/-- Why a key has no point id. -/
def keyError? : Value → Option KeyError
  | .text key => key.encodeError?.map .encode
  | _ => some .noText

def itemGroup (item : IndexItem) : Except IndexFailure Batch.GroupKey :=
  match Batch.groupKey? item with
  | some k => .ok k
  | none => .error .ungrouped

/-- Items as the passes make them. -/
def typedItems : ItemKind IndexItem where
  name := (·.id)
  vector := (·.vector)
  group := itemGroup
  keyError? item := keyError? (.text item.id)
  point := pointOf

/-- The item that a given one is, if its parts are of the right kind. -/
def GivenItem.item (given : GivenItem) : IndexItem :=
  ⟨given.key.plain, given.vector, match given.metadata with | .dict fields => fields | _ => []⟩

/-- Items as they are handed over. -/
def givenItems : ItemKind GivenItem where
  name given := given.key.plain
  vector := (·.vector)
  group given :=
    match given.metadata with
    | .dict _ => itemGroup given.item
    | _ => .error .noFields
  keyError? given := keyError? given.key
  point given := pointOf given.item

section Kinds

variable {α : Type} (kind : ItemKind α)

/-- Writes batches in turn; `done` of `total` are written already. -/
def writeBatchesOf (total done : Nat) : List (List α) → IndexM Unit
  | [] => return
  | batch :: rest => do
    match batch.findSome? kind.keyError? with
    | some e => throw (.key e)
    | none =>
      guarded (.upsert (done + 1) total batch.length) (Client.upsert (batch.map kind.point))
      writeBatchesOf total (done + 1) rest

/-- The error of items whose vectors do not share one positive dimension. -/
def dimensionErrorOf? (dimension : Nat) (items : List α) : Option StoreError :=
  if dimension = 0 then some .noVector
  else
    (items.find? fun item => (kind.vector item).length != dimension).map fun item =>
      .mixedDimension (kind.name item) (kind.vector item).length dimension

/-- Checks items and makes the collection ready for them. -/
def prepareOf (ix : VectorIndex) (items : List α) : IndexM Unit := do
  let dimension := (items.head?.map fun item => (kind.vector item).length).getD 0
  match dimensionErrorOf? kind dimension items with
  | some e => throw (.service e)
  | none => ix.ensureCollection dimension

/-- Inserts or replaces items by key; of equal keys the last one counts. -/
def upsertOf (ix : VectorIndex) (items : List α) : IndexM Unit := do
  if items.isEmpty then return
  else
    prepareOf kind ix items
    match Batch.batchesOf kind.group ix.batchSize items with
    | .error f => throw f
    | .ok batches => writeBatchesOf kind batches.length 0 batches

end Kinds

def upsert (ix : VectorIndex) (items : List IndexItem) : IndexM Unit := upsertOf typedItems ix items

/-- The key of a point: the stored one, or else its id. -/
def keyOf (p : Point) : Value := (p.payload.get? keyField).getD (.text p.id.text)

/-- Whether two values are one key: numbers count by value. -/
def sameKey (v w : Value) : Bool := Batch.GroupKey.ofValue? v == Batch.GroupKey.ofValue? w

/-- The values without those that are the same key as one before. -/
def distinctKeys (vs : List Value) : List Value :=
  vs.foldl (fun found v => if found.any (sameKey v) then found else found ++ [v]) []

/-- The number that a value is, in a form that compares. -/
def number? : Value → Option Score
  | .real x => some (.ofBinary64 x)
  | v => v.rational?.map .ofRat

/-- Keys in order: texts, or numbers by value. Nothing if two of them do not compare. -/
def sortedKeys? (keys : List Value) : Option (List Value) :=
  match keys.mapM Value.text?, keys.mapM fun v => (number? v).map (v, ·) with
  | some texts, _ => some ((sortBy (fun a b => !decide (b < a)) texts).map .text)
  | _, some numbers => some ((sortBy (fun a b => !Score.lt b.2 a.2) numbers).map (·.1))
  | none, none => if keys.length ≤ 1 then some keys else none

/-- The up to `topK` items most similar to the vector, the best first. -/
def query (ix : VectorIndex) (v : Embedding) (topK : Int) (withMetadata : Bool) :
    IndexM (List IndexMatch) := do
  if topK ≤ 0 then return []
  else if ← ix.exists? then
    let found ← guarded (.query ix.name) (Client.queryPoints v topK withMetadata)
    return found.map fun (p, score) =>
      let shown := (p.payload.erase keyField).map fun (k, x) => (k, .text x.plain)
      ⟨keyOf p, score, .dict (if withMetadata then shown else [])⟩
  else return []

/-- The point id of a key. -/
def pointId? : Value → Except KeyError PointId
  | .text key => (PointId.ofKey? key).mapError .encode
  | _ => .error .noText

/-- Deletes items by key; unknown keys are ignored. -/
def delete (ix : VectorIndex) (keys : List Value) : IndexM Unit := do
  match keys.mapM pointId? with
  | .error e => throw (.key e)
  | .ok ids =>
    if ids.isEmpty then return
    else if ← ix.exists? then
      guarded (.delete ids.length) (Client.delete ids)

/-- The keys of listed points; a list or a dictionary can be none. -/
def pageKeys (points : List Point) : ClientM (List Value) :=
  if points.all fun p => (Batch.GroupKey.ofValue? (keyOf p)).isSome then return points.map keyOf
  else throw .badKey

/-- The keys on the pages from `offset` on, at most `fuel` pages. -/
def pages (filter : PayloadFilter) (offset : Option PointId) : Nat → ClientM (List Value)
  | 0 => return []
  | fuel + 1 => do
    let (points, next) ← Client.scroll filter pageSize offset
    let found ← pageKeys points
    match next with
    | none => return found
    | some id => return found ++ (← pages filter (some id) fuel)

/-- The conditions of a listing. -/
def filterOf (filePath project : Option Sought) : PayloadFilter :=
  (filePath.map fun s => (("file_path" : Text), s)).toList ++
    (project.map fun s => (("project" : Text), s)).toList

/-- The keys of the stored items of a file and a project, each once. -/
def keys (ix : VectorIndex) (filePath project : Option Sought) : IndexM (List Value) := do
  if ← ix.exists? then
    -- every page but the last has a point, so there are no more pages than this
    let fuel := (← getThe Client).points.length + 1
    return distinctKeys
      (← guarded (.list ix.name) (pages (filterOf filePath project) none fuel))
  else return []

def count (ix : VectorIndex) : IndexM Nat := do
  if ← ix.exists? then guarded (.count ix.name) Client.count else return 0

/-- Whether the index holds anything. -/
def nonempty (ix : VectorIndex) : IndexM Bool := return (← ix.count) > 0

/-- Drops the collection; the next write makes it again. -/
def clear (ix : VectorIndex) : IndexM Unit := do
  if ← ix.exists? then guarded (.clear ix.name) Client.deleteCollection

end VectorIndex

end CodeAtlas
