import CodeAtlas.Proofs.Store.Faultless
import Mathlib.Data.Finmap

/-!
# The index as a map

What the index promises: a map from ids to entries (`Table`), each a vector and its metadata.
`Table.Step` says for each operation what it answers and which map it leaves. Writes insert or
replace in the order of the list, a query ranks all entries and shows the best of them, and vectors
of another dimension are refused.

    Table.Step t op answer t'

`VectorIndex.answers` are the answers of the index itself to a list of operations, one after the
other.
-/

namespace CodeAtlas

/-- What is kept under an id. -/
structure Entry where
  vector : Embedding
  metadata : Fields

namespace Entry

/-- The entry of an item. The id has a field of its own, so metadata under its name is dropped. -/
def ofItem (item : IndexItem) : Entry := ⟨item.vector, item.metadata.erase VectorIndex.keyField⟩

/-- Whether a field holds what is sought, if anything is. -/
def Meets (e : Entry) (field : Text) : Option Sought → Prop
  | none => True
  | some s => ∃ v, e.metadata.get? field = some v ∧ s.isHeld v = true

/-- What a query shows of an entry. -/
def shown (v : Embedding) (withMetadata : Bool) (found : Text × Entry) : IndexMatch :=
  ⟨.text found.1, Embedding.cosine found.2.vector v, .dict (if withMetadata then
    found.2.metadata.map fun (k, x) => (k, .text x.plain) else [])⟩

end Entry

/-- A map from ids to entries, and the dimension of its vectors once it is fixed. -/
structure Table where
  dimension : Option Nat
  entries : Finmap fun _ : Text => Entry

/-- What an index can be asked for. -/
inductive Operation
  | upsert (items : List IndexItem)
  | delete (ids : List Text)
  | clear
  | keys (file project : Option Sought)
  | count
  | nonempty
  | query (v : Embedding) (topK : Int) (withMetadata : Bool)

inductive Answer
  | done
  | keys (found : List Value)
  | count (n : Nat)
  | nonempty (b : Bool)
  | query (found : List IndexMatch)
  | failed (e : IndexFailure)

namespace Table

def empty : Table := ⟨none, ∅⟩

/-- Inserts or replaces items in order. The first write fixes the dimension. -/
def write (t : Table) (items : List IndexItem) : Table where
  dimension := t.dimension.or (items.head?.map (·.vector.length))
  entries := items.foldl (fun entries item => entries.insert item.id (.ofItem item)) t.entries

def delete (t : Table) (ids : List Text) : Table :=
  { t with entries := ids.foldl (fun entries id => entries.erase id) t.entries }

/-- Vectors with places, of one dimension, which is that of the table if it has one. -/
structure Fits (t : Table) (items : List IndexItem) : Prop where
  nonempty : ∀ item ∈ items, item.vector ≠ []
  equal : ∀ a ∈ items, ∀ b ∈ items, a.vector.length = b.vector.length
  fixed : ∀ d, t.dimension = some d → ∀ item ∈ items, item.vector.length = d

/-- All entries, each once and none before a better one. -/
structure Ranks (t : Table) (v : Embedding) (ranked : List (Text × Entry)) : Prop where
  nodup : (ranked.map (·.1)).Nodup
  mem : ∀ id e, (id, e) ∈ ranked ↔ t.entries.lookup id = some e
  sorted : ranked.Pairwise fun a b =>
    Score.lt (Embedding.cosine a.2.vector v) (Embedding.cosine b.2.vector v) = false

/-- What an operation answers on a table, and the table afterwards. -/
inductive Step (t : Table) : Operation → Answer → Table → Prop
  | upsert {items : List IndexItem} (h : t.Fits items) : Step t (.upsert items) .done (t.write items)
  | upsertRefused {items : List IndexItem} (h : ¬ t.Fits items) (e : StoreError) :
    Step t (.upsert items) (.failed (.service e)) t
  | delete (ids : List Text) : Step t (.delete ids) .done (t.delete ids)
  | clear : Step t .clear .done empty
  | keys {file project : Option Sought} {found : List Text} (hn : found.Nodup)
    (h : ∀ id, id ∈ found ↔ ∃ e, t.entries.lookup id = some e ∧ e.Meets "file_path" file ∧
      e.Meets "project" project) :
    Step t (.keys file project) (.keys (found.map .text)) t
  | count : Step t .count (.count t.entries.keys.card) t
  | nonempty : Step t .nonempty (.nonempty (decide (0 < t.entries.keys.card))) t
  | queryNothing {v : Embedding} {topK : Int} {withMetadata : Bool}
    (h : topK ≤ 0 ∨ t.dimension = none) : Step t (.query v topK withMetadata) (.query []) t
  | query {v : Embedding} {topK : Int} {withMetadata : Bool} {ranked : List (Text × Entry)}
    (hk : 0 < topK) (hv : t.dimension = some v.length) (h : t.Ranks v ranked) :
    Step t (.query v topK withMetadata)
      (.query ((ranked.take topK.toNat).map (Entry.shown v withMetadata))) t
  | queryRefused {v : Embedding} {topK : Int} {withMetadata : Bool} {d : Nat} (hk : 0 < topK)
    (hd : t.dimension = some d) (hv : v.length ≠ d) (e : StoreError) :
    Step t (.query v topK withMetadata) (.failed (.service e)) t

/-- Operations one after the other with their answers. -/
inductive Runs : Table → List Operation → List Answer → Prop
  | nil (t : Table) : Runs t [] []
  | cons {t t' : Table} {op : Operation} {answer : Answer} {ops : List Operation}
    {answers : List Answer} (h : t.Step op answer t') (hrest : Runs t' ops answers) :
    Runs t (op :: ops) (answer :: answers)

/-! ## Lookups -/

theorem lookup_write (t : Table) (items : List IndexItem) (id : Text) :
    (t.write items).entries.lookup id =
      ((items.reverse.find? (·.id = id)).map Entry.ofItem).or (t.entries.lookup id) := by
  have run : ∀ (items : List IndexItem) (m : Finmap fun _ : Text => Entry),
      (items.foldl (fun entries item => entries.insert item.id (.ofItem item)) m).lookup id =
        ((items.reverse.find? (·.id = id)).map Entry.ofItem).or (m.lookup id) := by
    intro items
    induction items with
    | nil => intro m; rfl
    | cons item rest ih =>
      intro m
      rw [List.foldl_cons, ih, List.reverse_cons, List.find?_append]
      cases rest.reverse.find? (·.id = id) with
      | some last => rfl
      | none =>
        by_cases hid : item.id = id
        · subst hid
          simp
        · rw [Finmap.lookup_insert_of_ne _ (Ne.symm hid)]
          simp [hid]
  exact run items t.entries

theorem lookup_delete (t : Table) (ids : List Text) (id : Text) :
    (t.delete ids).entries.lookup id = if id ∈ ids then none else t.entries.lookup id := by
  have run : ∀ (ids : List Text) (m : Finmap fun _ : Text => Entry),
      (ids.foldl (fun entries id => entries.erase id) m).lookup id =
        if id ∈ ids then none else m.lookup id := by
    intro ids
    induction ids with
    | nil => intro m; simp
    | cons first rest ih =>
      intro m
      rw [List.foldl_cons, ih]
      by_cases hid : id = first
      · subst hid
        simp
      · rw [Finmap.lookup_erase_ne hid]
        simp [hid]
  exact run ids t.entries

end Table

/-! ## The index itself -/

namespace Operation

/-- An operation as work on a client. -/
def work (ix : VectorIndex) : Operation → IndexM Answer
  | .upsert items => do ix.upsert items; return .done
  | .delete ids => do ix.delete (ids.map .text); return .done
  | .clear => do ix.clear; return .done
  | .keys file project => return .keys (← ix.keys file project)
  | .count => return .count (← ix.count)
  | .nonempty => return .nonempty (← ix.nonempty)
  | .query v topK withMetadata => return .query (← ix.query v topK withMetadata)

/-- The answer of the index, and the client afterwards. -/
def run (ix : VectorIndex) (op : Operation) (c : Client) : Answer × Client :=
  match Client.run (op.work ix) c with
  | (.ok answer, c') => (answer, c')
  | (.error e, c') => (.failed e, c')

/-- The ids that an operation names. -/
def ids : Operation → List Text
  | .upsert items => items.map (·.id)
  | .delete ids => ids
  | .clear | .keys .. | .count | .nonempty | .query .. => []

/-- Items that are written together name files that can group, and one file for one id. -/
def IsGrouped : Operation → Prop
  | .upsert items => (∀ item ∈ items, (Batch.groupKey? item).isSome = true) ∧
    ∀ a ∈ items, ∀ b ∈ items, a.id = b.id →
      a.metadata.get? "file_path" = b.metadata.get? "file_path"
  | .delete _ | .clear | .keys .. | .count | .nonempty | .query .. => True

end Operation

/-- The answers to operations in turn. -/
def VectorIndex.answers (ix : VectorIndex) : List Operation → Client → List Answer
  | [], _ => []
  | op :: ops, c => (op.run ix c).1 :: ix.answers ops (op.run ix c).2

end CodeAtlas
