import CodeAtlas.Store.Collection

/-!
# Batches

Items are written in batches that never split a file: items are grouped by file, groups in the
order of their first item, and a batch takes whole groups while they fit.
-/

namespace CodeAtlas

/-- One vector to write under a key. -/
structure IndexItem where
  id : Text
  vector : Embedding
  metadata : Fields

namespace Batch

/-- What items are grouped by. Numbers group by value. -/
inductive GroupKey
  | null
  | text (s : Text)
  | number (q : Rat)
  | special (x : Binary64)
deriving DecidableEq, Repr

/-- The group of a value, `none` for a list or dictionary, which can group nothing. -/
def GroupKey.ofValue? : Value → Option GroupKey
  | .null => some .null
  | .text s => some (.text s)
  | .bool b => some (.number (if b then 1 else 0))
  | .int i => some (.number i)
  | .real x =>
    match x.toRat? with
    | some q => some (.number q)
    | none => some (.special x)
  | .list _ | .dict _ => none

/-- The group of an item: its file, empty if it names none. -/
def groupKey? (item : IndexItem) : Option GroupKey :=
  GroupKey.ofValue? ((item.metadata.get? "file_path").getD (.text ""))

/-- Adds an element to the end of its group, a new group coming last. -/
def addTo {κ α : Type} [DecidableEq κ] (groups : List (κ × List α)) (k : κ) (a : α) :
    List (κ × List α) :=
  match groups with
  | [] => [(k, [a])]
  | (k', as) :: rest => if k' = k then (k', as ++ [a]) :: rest else (k', as) :: addTo rest k a

/-- The elements grouped by key, groups in the order of their first element. -/
def group {κ α : Type} [DecidableEq κ] (keyed : List (κ × α)) : List (κ × List α) :=
  keyed.foldl (fun groups (k, a) => addTo groups k a) []

/-- Packs groups into batches: a group that does not fit into the current batch starts a new
one. -/
def pack {α : Type} (size : Nat) (batch : List α) : List (List α) → List (List α)
  | [] => if batch.isEmpty then [] else [batch]
  | g :: gs =>
    if !batch.isEmpty && batch.length + g.length > size then batch :: pack size g gs
    else pack size (batch ++ g) gs

/-- The batches of items that are grouped by `groupOf`, which may fail. -/
def batchesOf {m : Type → Type} [Monad m] {α : Type} (groupOf : α → m GroupKey) (size : Nat)
    (items : List α) : m (List (List α)) := do
  let keyed ← items.mapM fun item => (·, item) <$> groupOf item
  return pack size [] ((group keyed).map (·.2))

/-- The batches of items, `none` if an item cannot be grouped. -/
def batches? (size : Nat) (items : List IndexItem) : Option (List (List IndexItem)) :=
  batchesOf groupKey? size items

/-- Packing loses nothing and keeps the order. -/
theorem flatten_pack {α : Type} (size : Nat) (batch : List α) (groups : List (List α)) :
    (pack size batch groups).flatten = batch ++ groups.flatten := by
  induction groups generalizing batch with
  | nil =>
    unfold pack
    split
    · simp_all
    · simp
  | cons g gs ih =>
    unfold pack
    split
    · simp [ih]
    · simp [ih]

end Batch

end CodeAtlas
