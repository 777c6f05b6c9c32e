import CodeAtlas.Proofs.Store.Batches
import CodeAtlas.Proofs.Store.Points
import CodeAtlas.Proofs.Work
import Mathlib.Data.List.Find

/-!
# What calls do to the points

Work on a client gives an answer and leaves a client (`Client.run`). Most of it leaves the
collection as it is, whether it succeeds or fails (`Keeps`). What is left changes the points in one
of two ways, under every table of faults:

* `run_upsert`: a write lays the items of its first batches over the points, all of them if it
  succeeds, and none if it fails before it writes;
* `run_delete`: a deletion takes the keys' points away, or none if it fails.
-/

namespace CodeAtlas

namespace Client

variable {ε ε' α β : Type}

/-- The answer that work on a client gives, and the client afterwards. -/
def run (m : ExceptT ε (StateM Client) α) (c : Client) : Except ε α × Client := m.run.run c

@[simp] theorem run_pure (a : α) (c : Client) :
    run (pure a : ExceptT ε (StateM Client) α) c = (.ok a, c) := rfl

@[simp] theorem run_throw (e : ε) (c : Client) :
    run (throw e : ExceptT ε (StateM Client) α) c = (.error e, c) := rfl

@[simp] theorem run_get (c : Client) :
    run (get : ExceptT ε (StateM Client) Client) c = (.ok c, c) := rfl

@[simp] theorem run_modify (f : Client → Client) (c : Client) :
    run (modify f : ExceptT ε (StateM Client) PUnit) c = (.ok ⟨⟩, f c) := rfl

/-- What comes second runs only after success. -/
theorem run_bind (m : ExceptT ε (StateM Client) α) (f : α → ExceptT ε (StateM Client) β)
    (c : Client) :
    run (m >>= f) c = match run m c with
      | (.ok a, c') => run (f a) c'
      | (.error e, c') => (.error e, c') := by
  have hb : run (m >>= f) c = (ExceptT.bindCont f (run m c).1) (run m c).2 := rfl
  rw [hb]
  cases run m c with
  | mk answer c' => cases answer <;> rfl

theorem run_bind_of_ok {m : ExceptT ε (StateM Client) α} {f : α → ExceptT ε (StateM Client) β}
    {c c' : Client} {a : α} (h : run m c = (.ok a, c')) : run (m >>= f) c = run (f a) c' := by
  rw [run_bind, h]

theorem run_bind_of_error {m : ExceptT ε (StateM Client) α} {f : α → ExceptT ε (StateM Client) β}
    {c c' : Client} {e : ε} (h : run m c = (.error e, c')) : run (m >>= f) c = (.error e, c') := by
  rw [run_bind, h]

theorem run_bind_ok {m : ExceptT ε (StateM Client) α} {f : α → ExceptT ε (StateM Client) β}
    {c c'' : Client} {b : β} (h : run (m >>= f) c = (.ok b, c'')) :
    ∃ a c', run m c = (.ok a, c') ∧ run (f a) c' = (.ok b, c'') := by
  rw [run_bind] at h
  split at h
  · next a c' hm => exact ⟨a, c', hm, h⟩
  · cases h

theorem run_bind_error {m : ExceptT ε (StateM Client) α} {f : α → ExceptT ε (StateM Client) β}
    {c c'' : Client} {e : ε} (h : run (m >>= f) c = (.error e, c'')) :
    run m c = (.error e, c'') ∨
      ∃ a c', run m c = (.ok a, c') ∧ run (f a) c' = (.error e, c'') := by
  rw [run_bind] at h
  split at h
  · next a c' hm => exact Or.inr ⟨a, c', hm, h⟩
  · next e' c' hm =>
    cases h
    exact Or.inl hm

/-- Naming a failure otherwise changes nothing else. -/
theorem run_adapt (f : ε → ε') (m : ExceptT ε (StateM Client) α) (c : Client) :
    run (m.adapt f) c = ((run m c).1.mapError f, (run m c).2) := rfl

/-! ## Work that keeps the collection -/

/-- Leaves the collection as it is, whether it succeeds or fails. -/
def Keeps (m : ExceptT ε (StateM Client) α) : Prop :=
  ∀ c, (run m c).2.collection = c.collection

theorem Keeps.eq {m : ExceptT ε (StateM Client) α} (hm : Keeps m) {c c' : Client}
    {answer : Except ε α} (h : run m c = (answer, c')) : c'.collection = c.collection := by
  have := hm c
  rwa [h] at this

theorem keeps_pure (a : α) : Keeps (pure a : ExceptT ε (StateM Client) α) := fun _ => rfl

theorem keeps_throw (e : ε) : Keeps (throw e : ExceptT ε (StateM Client) α) := fun _ => rfl

theorem keeps_get : Keeps (get : ExceptT ε (StateM Client) Client) := fun _ => rfl

theorem keeps_bind {m : ExceptT ε (StateM Client) α} {f : α → ExceptT ε (StateM Client) β}
    (hm : Keeps m) (hf : ∀ a, Keeps (f a)) : Keeps (m >>= f) := by
  intro c
  rw [run_bind]
  split
  · next a c' h => rw [hf a c', hm.eq h]
  · next e c' h => exact hm.eq h

theorem keeps_adapt {m : ExceptT ε (StateM Client) α} (hm : Keeps m) (f : ε → ε') :
    Keeps (m.adapt f) := by
  intro c
  rw [run_adapt]
  exact hm c

/-- A call is logged and passes the faults or is refused; the points do not change by that. -/
theorem keeps_perform (call : Call) : Keeps (perform call) := by
  refine keeps_bind (fun _ => rfl) fun _ => keeps_bind keeps_get fun c => ?_
  split
  · exact keeps_throw _
  · exact fun _ => rfl

theorem keeps_existing : Keeps existing := by
  refine keeps_bind keeps_get fun c => ?_
  split
  · exact keeps_pure _
  · exact keeps_bind keeps_get fun _ => keeps_throw _

theorem existing_ok {c c' : Client} {col : Collection} (h : run existing c = (.ok col, c')) :
    c' = c ∧ c.collection = some col := by
  obtain ⟨a, c1, hg, h⟩ := run_bind_ok h
  rw [run_get] at hg
  cases hg
  split at h
  · next col' hcol =>
    rw [run_pure] at h
    cases h
    exact ⟨rfl, hcol⟩
  · obtain ⟨_, _, _, h⟩ := run_bind_ok h
    rw [run_throw] at h
    cases h

theorem keeps_collectionExists : Keeps collectionExists := by
  refine keeps_bind (keeps_perform _) fun _ => keeps_bind keeps_get fun c => ?_
  split
  · exact keeps_pure _
  · exact keeps_throw _

theorem collectionExists_ok {c c' : Client} {b : Bool}
    (h : run collectionExists c = (.ok b, c')) : b = c.collection.isSome := by
  obtain ⟨_, c1, hp, h⟩ := run_bind_ok h
  obtain ⟨c2, _, hg, h⟩ := run_bind_ok h
  rw [run_get] at hg
  cases hg
  split at h
  · rw [run_pure] at h
    cases h
    rw [(keeps_perform _).eq hp]
  · rw [run_throw] at h
    cases h

theorem keeps_getDimension : Keeps getDimension := by
  refine keeps_bind (keeps_perform _) fun _ => keeps_bind keeps_existing fun col => ?_
  split
  · exact keeps_pure _
  · exact keeps_throw _

theorem keeps_scroll (filter : PayloadFilter) (limit : Nat) (offset : Option PointId) :
    Keeps (scroll filter limit offset) :=
  keeps_bind (keeps_perform _) fun _ => keeps_bind keeps_existing fun _ => keeps_pure _

theorem scroll_ok {filter : PayloadFilter} {limit : Nat} {offset : Option PointId}
    {c c' : Client} {answer : List Point × Option PointId}
    (h : run (scroll filter limit offset) c = (.ok answer, c')) :
    ∃ col, c.collection = some col ∧ answer = col.page filter limit offset := by
  obtain ⟨_, c1, hp, h⟩ := run_bind_ok h
  obtain ⟨col, c2, he, h⟩ := run_bind_ok h
  rw [run_pure] at h
  cases h
  exact ⟨col, (keeps_perform _).eq hp ▸ (existing_ok he).2, rfl⟩

/-! ## Calls that change the collection -/

theorem points_eq {c : Client} {col : Collection} (h : c.collection = some col) :
    c.points = col.points := by
  simp [points, h]

theorem points_none {c : Client} (h : c.collection = none) : c.points = [] := by
  simp [points, h]

theorem points_congr {c c' : Client} (h : c'.collection = c.collection) : c'.points = c.points := by
  simp [points, h]

/-- A call that changes an existing collection does so as a whole or not at all. -/
theorem run_change {call : Call} {change : Collection → Collection} {c c' : Client}
    {answer : Except ClientError PUnit}
    (h : run (do perform call; setCollection (some (change (← existing)))) c = (answer, c')) :
    (∃ e, answer = .error e ∧ c'.collection = c.collection) ∨
      ∃ col, c.collection = some col ∧ answer = .ok ⟨⟩ ∧ c'.collection = some (change col) := by
  cases answer with
  | error e =>
    left
    refine ⟨e, rfl, ?_⟩
    rcases run_bind_error h with hp | ⟨_, c1, hp, h⟩
    · exact (keeps_perform _).eq hp
    · rcases run_bind_error h with he | ⟨col, c2, he, h⟩
      · exact (keeps_existing.eq he).trans ((keeps_perform _).eq hp)
      · cases h
  | ok u =>
    right
    obtain ⟨_, c1, hp, h⟩ := run_bind_ok h
    obtain ⟨col, c2, he, h⟩ := run_bind_ok h
    cases h
    exact ⟨col, (keeps_perform _).eq hp ▸ (existing_ok he).2, rfl, rfl⟩

theorem keeps_createPayloadIndex (field : Text) : Keeps (createPayloadIndex field) :=
  keeps_perform _

theorem keeps_forM {γ : Type} {f : γ → ExceptT ε (StateM Client) PUnit} (hf : ∀ x, Keeps (f x))
    (xs : List γ) : Keeps (xs.forM f) := by
  induction xs with
  | nil => exact keeps_pure _
  | cons x xs ih => exact keeps_bind (hf x) fun _ => ih

/-- Making a collection leaves none or an empty one where there was none. -/
theorem run_createCollection {dimension : Nat} {c c' : Client} {answer : Except ClientError PUnit}
    (h : run (createCollection dimension) c = (answer, c')) (hc : c.collection = none) :
    (∃ e, answer = .error e ∧ c'.collection = none) ∨
      answer = .ok ⟨⟩ ∧ c'.collection = some ⟨some dimension, []⟩ := by
  unfold createCollection at h
  rw [run_bind] at h
  split at h
  · next a c1 hp =>
    rw [run_bind, run_get] at h
    dsimp only at h
    split at h
    · cases h
      exact Or.inr ⟨rfl, rfl⟩
    · cases h
      exact Or.inl ⟨_, rfl, ((keeps_perform _).eq hp).trans hc⟩
  · next e c1 hp =>
    cases h
    exact Or.inl ⟨e, rfl, ((keeps_perform _).eq hp).trans hc⟩

end Client

/-- Whether an error comes from a check of dimensions. -/
def StoreError.isDimension : StoreError → Bool
  | .otherDimension .. | .noVector | .mixedDimension .. => true
  | _ => false

namespace VectorIndex

open Client Collection

/-! ## Making the collection ready -/

theorem keeps_exists? (ix : VectorIndex) : Keeps ix.exists? :=
  keeps_adapt keeps_collectionExists _

theorem guarded_ok {α : Type} {f : ClientError → StoreError} {m : ClientM α} {c c' : Client}
    {a : α} (h : run (guarded f m) c = (.ok a, c')) : run m c = (.ok a, c') := by
  unfold guarded at h
  rw [run_adapt] at h
  cases hm : run m c with
  | mk answer c1 =>
    rw [hm] at h
    cases answer with
    | error e => cases h
    | ok b => cases h; rfl

theorem guarded_error {α : Type} {f : ClientError → StoreError} {m : ClientM α} {c c' : Client}
    {e : IndexFailure} (h : run (guarded f m) c = (.error e, c')) :
    ∃ cause, run m c = (.error cause, c') ∧ e = .service (f cause) := by
  unfold guarded at h
  rw [run_adapt] at h
  cases hm : run m c with
  | mk answer c1 =>
    rw [hm] at h
    cases answer with
    | error cause => cases h; exact ⟨cause, rfl, rfl⟩
    | ok b => cases h

theorem exists?_ok {ix : VectorIndex} {c c' : Client} {b : Bool}
    (h : run ix.exists? c = (.ok b, c')) : b = c.collection.isSome :=
  collectionExists_ok (guarded_ok h)

theorem exists?_error {ix : VectorIndex} {c c' : Client} {e : IndexFailure}
    (h : run ix.exists? c = (.error e, c')) : ∃ s, e = .service s ∧ s.isDimension = false := by
  obtain ⟨cause, -, rfl⟩ := guarded_error h
  exact ⟨_, rfl, rfl⟩

theorem keeps_dimension? (ix : VectorIndex) : Keeps ix.dimension? := by
  refine keeps_bind ix.keeps_exists? fun b => ?_
  split
  · exact keeps_bind (keeps_adapt keeps_getDimension _) fun _ => keeps_pure _
  · exact keeps_pure _

/-- There is a dimension iff there is a collection. -/
theorem dimension?_ok {ix : VectorIndex} {c c' : Client} {d : Option Nat}
    (h : run ix.dimension? c = (.ok d, c')) : d.isSome = c.collection.isSome := by
  obtain ⟨b, c1, he, h⟩ := run_bind_ok h
  rw [← exists?_ok he]
  split at h
  · next hb =>
    obtain ⟨n, c2, -, h⟩ := run_bind_ok h
    cases h
    exact hb.symm
  · next hb =>
    cases h
    simpa using hb

/-- Making the collection ready writes no point, and there is a collection if it succeeds. -/
theorem run_ensureCollection {ix : VectorIndex} {dimension : Nat} {c c' : Client}
    {answer : Except IndexFailure PUnit}
    (h : run (ix.ensureCollection dimension) c = (answer, c')) :
    c'.points = c.points ∧ (answer = .ok ⟨⟩ → ∃ col, c'.collection = some col) := by
  unfold ensureCollection at h
  rw [run_bind] at h
  split at h
  · next d c1 hd =>
    have hk := ix.keeps_dimension?.eq hd
    have hs := dimension?_ok hd
    cases d with
    | some existing =>
      obtain ⟨col, hcol⟩ := Option.isSome_iff_exists.1 hs.symm
      have h1 : c1.collection = some col := hk.trans hcol
      dsimp only at h
      split at h
      · cases h
        exact ⟨points_congr hk, nofun⟩
      · cases h
        exact ⟨points_congr hk, fun _ => ⟨col, h1⟩⟩
    | none =>
      have hnone : c.collection = none := by simpa using hs.symm
      have h1 : c1.collection = none := hk.trans hnone
      dsimp only at h
      unfold guarded at h
      rw [run_adapt, run_bind] at h
      have hempty : c.points = [] := points_none hnone
      cases hm : run (createCollection dimension) c1 with
      | mk made c2 =>
        rw [hm] at h
        rcases run_createCollection hm h1 with ⟨e, rfl, h2⟩ | ⟨rfl, h2⟩
        · cases h
          exact ⟨by rw [hempty, points_none h2], nofun⟩
        · have hf := keeps_forM keeps_createPayloadIndex filterFields c2
          cases h
          refine ⟨?_, fun _ => ⟨_, hf.trans h2⟩⟩
          rw [hempty, points_eq (hf.trans h2)]
  · next e c1 hd =>
    cases h
    exact ⟨points_congr (ix.keeps_dimension?.eq hd), nofun⟩

/-! ## Items as the passes make them -/

def dimensionError? (dimension : Nat) (items : List IndexItem) : Option StoreError :=
  dimensionErrorOf? typedItems dimension items

def prepare (ix : VectorIndex) (items : List IndexItem) : IndexM Unit := prepareOf typedItems ix items

theorem prepare_eq (ix : VectorIndex) (items : List IndexItem) :
    ix.prepare items =
      (match dimensionError? ((items.head?.map (·.vector.length)).getD 0) items with
      | some e => throw (.service e)
      | none => ix.ensureCollection ((items.head?.map (·.vector.length)).getD 0)) := rfl

/-- Why the ids of items give no point ids. -/
def idError? (items : List IndexItem) : Option KeyError := items.findSome? typedItems.keyError?

/-- Every id has a point id, and no two have the same. -/
structure HavePointIds (ids : Set Text) : Prop where
  encodable : ∀ id ∈ ids, id.encodeError? = none
  injOn : Set.InjOn PointId.ofKey ids

theorem idError?_eq_none_iff {items : List IndexItem} :
    idError? items = none ↔ ∀ item ∈ items, item.id.encodeError? = none := by
  simp [idError?, typedItems, keyError?, List.findSome?_eq_none_iff]

def writeBatches (total done : Nat) (batches : List (List IndexItem)) : IndexM Unit :=
  writeBatchesOf typedItems total done batches

theorem writeBatches_cons (total done : Nat) (batch : List IndexItem)
    (rest : List (List IndexItem)) :
    writeBatches total done (batch :: rest) =
      (match idError? batch with
      | some e => throw (.key e)
      | none => do
        guarded (.upsert (done + 1) total batch.length) (Client.upsert (batch.map pointOf))
        writeBatches total (done + 1) rest) := rfl

theorem batchesOf_itemGroup (size : Nat) (items : List IndexItem) :
    Batch.batchesOf itemGroup size items =
      match Batch.batches? size items with
      | some batches => .ok batches
      | none => .error .ungrouped := by
  have hkeyed : (items.mapM fun item => (·, item) <$> itemGroup item) =
      match items.mapM fun item => (·, item) <$> Batch.groupKey? item with
      | some keyed => Except.ok keyed
      | none => .error .ungrouped := by
    induction items with
    | nil => rfl
    | cons item items ih =>
      rw [List.mapM_cons, List.mapM_cons, ih, itemGroup]
      cases Batch.groupKey? item with
      | none => rfl
      | some key => cases items.mapM fun item => (·, item) <$> Batch.groupKey? item <;> rfl
  unfold Batch.batches? Batch.batchesOf
  rw [hkeyed]
  cases items.mapM fun item => (·, item) <$> Batch.groupKey? item <;> rfl

/-- Writing items, if there are some. -/
theorem upsert_eq (ix : VectorIndex) (items : List IndexItem) :
    ix.upsert items =
      (if items.isEmpty then pure ⟨⟩
      else do
        ix.prepare items
        match Batch.batches? ix.batchSize items with
        | none => throw .ungrouped
        | some batches => writeBatches batches.length 0 batches) := by
  have hgroup : Batch.batchesOf typedItems.group ix.batchSize items = _ :=
    batchesOf_itemGroup ix.batchSize items
  unfold upsert upsertOf
  rw [hgroup]
  cases Batch.batches? ix.batchSize items <;> rfl

theorem run_prepare {ix : VectorIndex} {items : List IndexItem} {c c' : Client}
    {answer : Except IndexFailure PUnit} (h : run (ix.prepare items) c = (answer, c')) :
    c'.points = c.points ∧ (answer = .ok ⟨⟩ → ∃ col, c'.collection = some col) := by
  rw [prepare_eq] at h
  split at h
  · cases h
    exact ⟨rfl, nofun⟩
  · exact run_ensureCollection h

/-! ## Writing -/

/-- How writing batches ends before the last one: a batch is refused, or the id of an item in it
gives no point id. -/
inductive StopsWriting : IndexFailure → Prop
  | refused (batch total points : Nat) (cause : ClientError) :
    StopsWriting (.service (.upsert batch total points cause))
  | key (e : KeyError) : StopsWriting (.key e)

/-- Batches are written in turn until one fails. -/
theorem run_writeBatches {total done : Nat} {batches : List (List IndexItem)} {c c' : Client}
    {answer : Except IndexFailure PUnit} {col : Collection} (hc : c.collection = some col)
    (h : run (writeBatches total done batches) c = (answer, c')) :
    ∃ n, c'.points = overlay c.points ((batches.take n).flatten.map pointOf) ∧
      (answer = .ok ⟨⟩ ∧ batches.length ≤ n ∨ ∃ e, answer = .error e ∧ StopsWriting e) := by
  induction batches generalizing done c col with
  | nil =>
    cases h
    exact ⟨0, rfl, Or.inl ⟨rfl, Nat.le_refl _⟩⟩
  | cons batch rest ih =>
    rw [writeBatches_cons] at h
    split at h
    · next e he =>
      cases h
      exact ⟨0, rfl, Or.inr ⟨_, rfl, .key e⟩⟩
    · rw [run_bind] at h
      split at h
      · next a c1 hw =>
        rcases run_change (guarded_ok hw) with ⟨e, he, -⟩ | ⟨col', hcol', -, h1⟩
        · cases he
        · rw [hc] at hcol'
          cases hcol'
          obtain ⟨n, hn, hr⟩ := ih h1 h
          refine ⟨n + 1, ?_, hr.imp_left fun ⟨ha, hl⟩ => ⟨ha, Nat.succ_le_succ hl⟩⟩
          rw [hn, points_eq h1, points_eq hc, points_upsert, ← overlay_append, List.take_succ_cons,
            List.flatten_cons, List.map_append]
      · next e c1 hw =>
        cases h
        obtain ⟨cause, hcause, rfl⟩ := guarded_error hw
        rcases run_change hcause with ⟨e', -, h1⟩ | ⟨col', -, he, -⟩
        · exact ⟨0, by simp [points_congr h1], Or.inr ⟨_, rfl, .refused _ _ _ _⟩⟩
        · cases he

/-- The last of written items under an id. -/
theorem pointAt_map_pointOf (items : List IndexItem) (id : PointId) :
    pointAt (items.map pointOf).reverse id =
      (items.reverse.find? fun item => PointId.ofKey item.id = id).map pointOf := by
  rw [pointAt, ← List.map_reverse, List.find?_map]
  rfl

/-- The last of written items with a key, if its point id is that of no other key. -/
theorem pointAt_map_pointOf_ofKey {items : List IndexItem} {key : Text}
    (h : ∀ item ∈ items, PointId.ofKey item.id = PointId.ofKey key → item.id = key) :
    pointAt (items.map pointOf).reverse (PointId.ofKey key) =
      (items.reverse.find? (·.id = key)).map pointOf := by
  have hfind : items.reverse.find? (fun item => PointId.ofKey item.id = PointId.ofKey key) =
      items.reverse.find? (·.id = key) :=
    List.find?_congr fun item hitem =>
      decide_eq_decide.2 ⟨h item (List.mem_reverse.1 hitem), fun heq => by rw [heq]⟩
  rw [pointAt_map_pointOf, hfind]

/-- Batches change the order of items, but not which of one file is the last under an id. -/
theorem pointAt_flatten_batches {size : Nat} {items : List IndexItem}
    {batches : List (List IndexItem)} (hb : Batch.batches? size items = some batches) (id : PointId)
    (hone : ∀ a ∈ items, ∀ b ∈ items, PointId.ofKey a.id = id → PointId.ofKey b.id = id →
      Batch.groupKey? a = Batch.groupKey? b) :
    pointAt (batches.flatten.map pointOf).reverse id = pointAt (items.map pointOf).reverse id := by
  have hfilter := Batch.filter_batches hb (P := fun item => PointId.ofKey item.id = id) (by
    intro a ha b hb hPa hPb
    exact hone a ha b hb (of_decide_eq_true hPa) (of_decide_eq_true hPb))
  rw [pointAt_map_pointOf, pointAt_map_pointOf, ← List.head?_filter, ← List.head?_filter,
    List.filter_reverse, List.filter_reverse, hfilter]

/-- A write lays the items of its first batches over the points: all if it succeeds, and none
unless it fails at a batch. -/
theorem run_upsert {ix : VectorIndex} {items : List IndexItem} {batches : List (List IndexItem)}
    {c c' : Client} {answer : Except IndexFailure PUnit}
    (hb : Batch.batches? ix.batchSize items = some batches)
    (h : run (ix.upsert items) c = (answer, c')) :
    ∃ n, c'.points = overlay c.points ((batches.take n).flatten.map pointOf) ∧
      (answer = .ok ⟨⟩ → batches.length ≤ n) ∧
      (∀ e, answer = .error e → n = 0 ∨ StopsWriting e) := by
  rw [upsert_eq] at h
  split at h
  · next he =>
    have hnil : batches = [] := by
      rw [List.isEmpty_iff.1 he] at hb
      have : Batch.batches? ix.batchSize [] = some [] := rfl
      exact Option.some.inj (hb.symm.trans this)
    subst hnil
    cases h
    exact ⟨0, rfl, fun _ => Nat.le_refl _, nofun⟩
  · rw [run_bind] at h
    split at h
    · next a c1 hp =>
      obtain ⟨hpts, hcol⟩ := run_prepare hp
      obtain ⟨col, hcol⟩ := hcol rfl
      rw [hb] at h
      obtain ⟨n, hn, hr⟩ := run_writeBatches hcol h
      refine ⟨n, by rw [hn, hpts], ?_, ?_⟩
      · rintro rfl
        rcases hr with ⟨-, hl⟩ | ⟨_, hx, -⟩
        · exact hl
        · cases hx
      · rintro e rfl
        rcases hr with ⟨hx, -⟩ | ⟨_, hx, hstop⟩
        · cases hx
        · cases hx
          exact Or.inr hstop
    · next e c1 hp =>
      cases h
      exact ⟨0, (run_prepare hp).1, nofun, fun _ _ => Or.inl rfl⟩

/-! ## Deleting -/

theorem pointId?_ok_iff {key : Value} {id : PointId} : pointId? key = .ok id ↔
    ∃ text : Text, key = .text text ∧ text.encodeError? = none ∧ id = PointId.ofKey text := by
  cases key with
  | text text =>
    simp only [pointId?, PointId.ofKey?, Value.text.injEq, exists_eq_left']
    cases text.encodeError? with
    | some e => simp [Except.mapError]
    | none => simp [Except.mapError, eq_comm]
  | _ => simp [pointId?]

/-- Keys that have point ids are texts. -/
theorem mapM_pointId?_ok {keys : List Value} {ids : List PointId}
    (h : keys.mapM pointId? = .ok ids) :
    ∃ texts : List Text, keys = texts.map .text ∧ ids = texts.map PointId.ofKey := by
  have hall := forall₂_of_mapM_ok h
  clear h
  induction hall with
  | nil => exact ⟨[], rfl, rfl⟩
  | cons hid _ ih =>
    obtain ⟨text, rfl, -, rfl⟩ := pointId?_ok_iff.1 hid
    obtain ⟨texts, rfl, rfl⟩ := ih
    exact ⟨text :: texts, rfl, rfl⟩

/-- A deletion does not fail at a check of dimensions. -/
theorem delete_error {ix : VectorIndex} {keys : List Value} {c c' : Client} {e : IndexFailure}
    (h : run (ix.delete keys) c = (.error e, c')) {s : StoreError} (he : e = .service s) :
    s.isDimension = false := by
  unfold delete at h
  split at h
  · cases h
    cases he
  · split at h
    · cases h
    · rcases run_bind_error h with hx | ⟨b, c1, -, h⟩
      · obtain ⟨s', rfl, hs⟩ := exists?_error hx
        cases he
        exact hs
      · split at h
        · obtain ⟨cause, -, rfl⟩ := guarded_error h
          cases he
          rfl
        · cases h

/-- A deletion takes the points of the keys away, which are texts, or none if it fails. -/
theorem run_delete {ix : VectorIndex} {keys : List Value} {c c' : Client}
    {answer : Except IndexFailure PUnit} (h : run (ix.delete keys) c = (answer, c')) :
    (∃ texts : List Text, keys = texts.map .text ∧ answer = .ok ⟨⟩ ∧
        c'.points = without c.points (texts.map PointId.ofKey)) ∨
      ∃ e, answer = .error e ∧ c'.points = c.points := by
  unfold delete at h
  split at h
  · next e he =>
    cases h
    exact Or.inr ⟨_, rfl, rfl⟩
  · next ids hids =>
    obtain ⟨texts, hkeys, rfl⟩ := mapM_pointId?_ok hids
    split at h
    · next he =>
      cases h
      exact Or.inl ⟨texts, hkeys, rfl, by simp [List.isEmpty_iff.1 he]⟩
    · rw [run_bind] at h
      split at h
      · next b c1 hx =>
        have hk := ix.keeps_exists?.eq hx
        split at h
        · cases answer with
          | error e =>
            obtain ⟨cause, hcause, -⟩ := guarded_error h
            rcases run_change hcause with ⟨_, -, h1⟩ | ⟨_, -, hx, -⟩
            · exact Or.inr ⟨e, rfl, points_congr (h1.trans hk)⟩
            · cases hx
          | ok u =>
            rcases run_change (guarded_ok h) with ⟨_, hx, -⟩ | ⟨col, hcol, -, h1⟩
            · cases hx
            · refine Or.inl ⟨texts, hkeys, rfl, ?_⟩
              rw [points_eq h1, points_delete, points_eq (hk ▸ hcol)]
        · next hb =>
          cases h
          have hnone : c.collection = none := by
            have := exists?_ok hx
            simpa [this] using hb
          refine Or.inl ⟨texts, hkeys, rfl, ?_⟩
          rw [points_none (hk.trans hnone), points_none hnone]
          rfl
      · next e c1 hx =>
        cases h
        exact Or.inr ⟨e, rfl, points_congr (ix.keeps_exists?.eq hx)⟩

end VectorIndex

end CodeAtlas
