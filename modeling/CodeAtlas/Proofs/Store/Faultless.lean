import CodeAtlas.Proofs.Store.Calls

/-!
# Calls that pass

Without faults every call passes, and an operation of the index is told by the collection alone:
`Gives m c answer col` says that the work `m` on the client `c` answers `answer` and leaves the
collection `col`. There is one such lemma for each operation of the index but the listing of keys,
which goes page by page; only a vector of another dimension is refused (`gives_upsert_refused`,
`gives_query_refused`).

Work that only makes calls keeps the client but for the log (`gives_of_logged`).
-/

namespace CodeAtlas

namespace Client

variable {ε ε' α β : Type}

/-- A client that refuses no call, for a name that a collection can have. -/
structure IsFaultless (c : Client) : Prop where
  faults : c.faults = []
  name : isCollectionName c.name = true

/-- A client whose log goes on with some calls. -/
def logged (c : Client) (calls : List Call) : Client := { c with calls := c.calls ++ calls }

theorem logged_logged (c : Client) (first second : List Call) :
    (c.logged first).logged second = c.logged (first ++ second) := by
  simp [logged]

@[simp] theorem logged_collection (c : Client) (calls : List Call) :
    (c.logged calls).collection = c.collection := rfl

theorem IsFaultless.logged {c : Client} (h : c.IsFaultless) (calls : List Call) :
    (c.logged calls).IsFaultless := ⟨h.faults, h.name⟩

/-- Without faults a call is logged and passes. -/
theorem run_perform_of_faultless {c : Client} (h : c.IsFaultless) (call : Call) :
    run (perform call) c = (.ok ⟨⟩, c.logged [call]) := by
  unfold perform
  rw [run_bind_of_ok (run_modify _ _), run_bind_of_ok (run_get _)]
  dsimp only
  rw [h.faults]
  simp only [passFaults, run_modify]
  rw [logged, ← h.faults]

/-- The answer that work gives and the collection it leaves, with a client that still has no
faults. -/
structure Gives (m : ExceptT ε (StateM Client) α) (c : Client) (answer : Except ε α)
    (col : Option Collection) : Prop where
  answer : (run m c).1 = answer
  collection : (run m c).2.collection = col
  faultless : (run m c).2.IsFaultless

theorem Gives.eq {m : ExceptT ε (StateM Client) α} {c : Client} {answer : Except ε α}
    {col : Option Collection} (h : Gives m c answer col) :
    ∃ c', run m c = (answer, c') ∧ c'.collection = col ∧ c'.IsFaultless :=
  ⟨(run m c).2, by rw [← h.answer], h.collection, h.faultless⟩

theorem gives_of_run {m : ExceptT ε (StateM Client) α} {c c' : Client} {answer : Except ε α}
    (h : run m c = (answer, c')) (hc : c'.IsFaultless) : Gives m c answer c'.collection :=
  ⟨by rw [h], by rw [h], by rw [h]; exact hc⟩

/-- Work that only makes calls keeps the collection. -/
theorem gives_of_logged {m : ExceptT ε (StateM Client) α} {c : Client} {answer : Except ε α}
    {col : Option Collection} {calls : List Call} (h : c.IsFaultless) (hc : c.collection = col)
    (hrun : run m c = (answer, c.logged calls)) : Gives m c answer col := by
  have hgives := gives_of_run hrun (h.logged calls)
  rwa [logged_collection, hc] at hgives

section
variable {m : ExceptT ε (StateM Client) α} {f : α → ExceptT ε (StateM Client) β} {c : Client}
  {col col' : Option Collection} {a : α}

theorem Gives.bind {answer : Except ε β} (h : Gives m c (.ok a) col)
    (hf : ∀ c' : Client, c'.IsFaultless → c'.collection = col → Gives (f a) c' answer col') :
    Gives (m >>= f) c answer col' := by
  obtain ⟨c', hm, hcol, hc'⟩ := h.eq
  have hrun : run (m >>= f) c = run (f a) c' := by rw [run_bind, hm]
  obtain ⟨ha, hb, hc⟩ := hf c' hc' hcol
  exact ⟨hrun ▸ ha, hrun ▸ hb, hrun ▸ hc⟩

theorem gives_pure (h : c.IsFaultless) (hc : c.collection = col) (a : α) :
    Gives (pure a : ExceptT ε (StateM Client) α) c (.ok a) col := ⟨rfl, hc, h⟩

theorem gives_throw (h : c.IsFaultless) (hc : c.collection = col) (e : ε) :
    Gives (throw e : ExceptT ε (StateM Client) α) c (.error e) col := ⟨rfl, hc, h⟩

theorem gives_get (h : c.IsFaultless) (hc : c.collection = col) :
    Gives (get : ExceptT ε (StateM Client) Client) c (.ok c) col := ⟨rfl, hc, h⟩

theorem Gives.adapt {answer : Except ε α} (h : Gives m c answer col) (g : ε → ε') :
    Gives (m.adapt g) c (answer.mapError g) col := by
  obtain ⟨c', hm, rfl, hc'⟩ := h.eq
  exact gives_of_run (by rw [run_adapt, hm]) hc'

end

/-! ## Calls of the client -/

section
variable {c : Client} {col : Option Collection} {x : Collection}

theorem gives_perform (h : c.IsFaultless) (hc : c.collection = col) (call : Call) :
    Gives (perform call) c (.ok ⟨⟩) col :=
  gives_of_logged h hc (run_perform_of_faultless h call)

theorem gives_existing (h : c.IsFaultless) (hc : c.collection = some x) :
    Gives existing c (.ok x) (some x) := by
  refine (gives_get h hc).bind fun c' h' hc' => ?_
  rw [hc]
  exact gives_pure h' hc' x

theorem gives_setCollection (h : c.IsFaultless) (col : Option Collection) :
    Gives (setCollection col) c (.ok ⟨⟩) col := ⟨rfl, rfl, h.faults, h.name⟩

/-- A call that changes an existing collection. -/
theorem gives_change (h : c.IsFaultless) (hc : c.collection = some x) (call : Call)
    (change : Collection → Collection) :
    Gives (do perform call; setCollection (some (change (← existing)))) c (.ok ⟨⟩)
      (some (change x)) := by
  refine (gives_perform h hc call).bind fun c' h' hc' => ?_
  refine (gives_existing h' hc').bind fun c'' h'' _ => ?_
  exact gives_setCollection h'' _

theorem canBeLookedFor_of_isCollectionName {name : Value} (h : isCollectionName name = true) :
    canBeLookedFor name = true := by
  cases name with
  | text s =>
    have hne : s ≠ "" := by
      rintro rfl
      cases h
    simpa [canBeLookedFor, Text.isEmpty, Text.toList_eq_nil_iff] using hne
  | null | bool _ | int _ | real _ | list _ | dict _ => cases h

theorem run_collectionExists_of_faultless {c : Client} (h : c.IsFaultless) :
    run collectionExists c = (.ok c.collection.isSome, c.logged [.collectionExists]) := by
  unfold collectionExists
  rw [run_bind_of_ok (run_perform_of_faultless h _), run_bind_of_ok (run_get _),
    if_pos (canBeLookedFor_of_isCollectionName (h.logged _).name)]
  rfl

theorem gives_collectionExists (h : c.IsFaultless) (hc : c.collection = col) :
    Gives collectionExists c (.ok col.isSome) col := by
  rw [← hc]
  exact gives_of_logged h rfl (run_collectionExists_of_faultless h)

theorem gives_getDimension (h : c.IsFaultless) (hc : c.collection = some x) {dimension : Nat}
    (hd : x.dimension = some dimension) : Gives getDimension c (.ok dimension) (some x) := by
  refine (gives_perform h hc _).bind fun c' h' hc' => ?_
  refine (gives_existing h' hc').bind fun c'' h'' hc'' => ?_
  rw [hd]
  exact gives_pure h'' hc'' _

theorem gives_createCollection (h : c.IsFaultless) (dimension : Nat) :
    Gives (createCollection dimension) c (.ok ⟨⟩) (some ⟨some dimension, []⟩) := by
  refine (gives_perform h rfl _).bind fun c' h' hc' => ?_
  refine (gives_get h' hc').bind fun c'' h'' hc'' => ?_
  dsimp only
  rw [h'.name]
  exact gives_setCollection h'' _

theorem gives_createPayloadIndexes (h : c.IsFaultless) (hc : c.collection = col)
    (fields : List Text) : Gives (fields.forM createPayloadIndex) c (.ok ⟨⟩) col := by
  induction fields generalizing c with
  | nil => exact gives_pure h hc _
  | cons field rest ih =>
    refine (gives_perform h hc _).bind fun c' h' hc' => ?_
    exact ih h' hc'

theorem run_scroll_of_faultless {c : Client} {col : Collection} (h : c.IsFaultless)
    (hc : c.collection = some col) (filter : PayloadFilter) (limit : Nat)
    (offset : Option PointId) :
    run (scroll filter limit offset) c =
      (.ok (col.page filter limit offset), c.logged [.scroll filter limit offset]) := by
  have hfound : run existing (c.logged [.scroll filter limit offset]) =
      (.ok col, c.logged [.scroll filter limit offset]) := by
    unfold existing
    rw [run_bind_of_ok (run_get _), logged_collection, hc, run_pure]
  unfold scroll
  rw [run_bind_of_ok (run_perform_of_faultless h _), run_bind_of_ok hfound, run_pure]

/-- A query is answered if its vector fits. -/
theorem gives_queryPoints (h : c.IsFaultless) (hc : c.collection = some x) {dimension : Nat}
    (hd : x.dimension = some dimension) (v : Embedding) (limit : Int) (withPayload : Bool) :
    Gives (queryPoints v limit withPayload) c
      (if v.length = dimension then .ok (x.nearest v limit.toNat)
        else .error (.vectorSize v.length dimension)) (some x) := by
  refine (gives_perform h hc _).bind fun c' h' hc' => ?_
  refine (gives_existing h' hc').bind fun c'' h'' hc'' => ?_
  rw [hd]
  dsimp only
  split
  · exact gives_pure h'' hc'' _
  · exact gives_throw h'' hc'' _

end

end Client

/-! ## Operations of the index -/

namespace VectorIndex

open Client Collection

variable {ix : VectorIndex} {c : Client} {col : Option Collection} {x : Collection}

theorem gives_guarded {α : Type} {f : ClientError → StoreError} {m : ClientM α} {a : α}
    (h : Gives m c (.ok a) col) : Gives (guarded f m) c (.ok a) col := h.adapt _

theorem gives_exists? (ix : VectorIndex) (h : c.IsFaultless) (hc : c.collection = col) :
    Gives ix.exists? c (.ok col.isSome) col :=
  gives_guarded (gives_collectionExists h hc)

theorem gives_dimension?_none (ix : VectorIndex) (h : c.IsFaultless) (hc : c.collection = none) :
    Gives ix.dimension? c (.ok none) none := by
  refine (ix.gives_exists? h hc).bind fun c' h' hc' => ?_
  exact gives_pure h' hc' _

theorem gives_dimension?_some (ix : VectorIndex) (h : c.IsFaultless) (hc : c.collection = some x)
    {dimension : Nat} (hd : x.dimension = some dimension) :
    Gives ix.dimension? c (.ok (some dimension)) (some x) := by
  refine (ix.gives_exists? h hc).bind fun c' h' hc' => ?_
  refine ((gives_getDimension h' hc' hd).adapt _).bind fun c'' h'' hc'' => ?_
  exact gives_pure h'' hc'' _

/-- The collection is made if it is missing. -/
theorem gives_ensureCollection (h : c.IsFaultless) (hc : c.collection = col) {dimension : Nat}
    (hfits : ∀ x, col = some x → x.dimension = some dimension) :
    Gives (ix.ensureCollection dimension) c (.ok ⟨⟩) (some (col.getD ⟨dimension, []⟩)) := by
  cases col with
  | none =>
    refine (ix.gives_dimension?_none h hc).bind fun c' h' hc' => ?_
    refine gives_guarded ?_
    refine (gives_createCollection h' dimension).bind fun c'' h'' hc'' => ?_
    exact gives_createPayloadIndexes h'' hc'' _
  | some x =>
    refine (ix.gives_dimension?_some h hc (hfits x rfl)).bind fun c' h' hc' => ?_
    dsimp only
    rw [if_neg (not_not.2 rfl)]
    exact gives_pure h' hc' _

theorem dimensionError?_eq_none_iff {dimension : Nat} {items : List IndexItem} :
    dimensionError? dimension items = none ↔
      dimension ≠ 0 ∧ ∀ item ∈ items, item.vector.length = dimension := by
  unfold dimensionError? dimensionErrorOf?
  by_cases hd : dimension = 0
  · simp [hd]
  · simp [hd, List.find?_eq_none, typedItems]

theorem gives_writeBatches (h : c.IsFaultless) (hc : c.collection = some x) (total done : Nat)
    {batches : List (List IndexItem)}
    (hids : ∀ batch ∈ batches, ∀ item ∈ batch, item.id.encodeError? = none) :
    Gives (writeBatches total done batches) c (.ok ⟨⟩)
      (some (x.upsert (batches.flatten.map pointOf))) := by
  induction batches generalizing c x done with
  | nil => exact gives_pure h hc _
  | cons batch rest ih =>
    rw [writeBatches_cons, idError?_eq_none_iff.2 (hids batch List.mem_cons_self)]
    refine (gives_guarded (gives_change h hc _ (·.upsert (batch.map pointOf)))).bind
      fun c' h' hc' => ?_
    have hrest := ih h' hc' (done + 1) fun b hb => hids b (List.mem_cons_of_mem _ hb)
    have hboth : x.upsert ((batch :: rest).flatten.map pointOf) =
        (x.upsert (batch.map pointOf)).upsert (rest.flatten.map pointOf) := by
      simp [Collection.upsert, List.foldl_append]
    rw [hboth]
    exact hrest

/-- Items of one positive dimension that fits are all written. -/
theorem gives_upsert (ix : VectorIndex) (h : c.IsFaultless) (hc : c.collection = col)
    {items : List IndexItem} {batches : List (List IndexItem)} {dimension : Nat}
    (hne : items ≠ []) (hpos : dimension ≠ 0)
    (hall : ∀ item ∈ items, item.vector.length = dimension)
    (hids : ∀ item ∈ items, item.id.encodeError? = none)
    (hfits : ∀ x, col = some x → x.dimension = some dimension)
    (hb : Batch.batches? ix.batchSize items = some batches) :
    Gives (ix.upsert items) c (.ok ⟨⟩)
      (some ((col.getD ⟨dimension, []⟩).upsert (batches.flatten.map pointOf))) := by
  have hhead : (items.head?.map (·.vector.length)).getD 0 = dimension := by
    cases items with
    | nil => exact absurd rfl hne
    | cons item rest => exact hall item List.mem_cons_self
  have hempty : items.isEmpty = false := by
    cases items with
    | nil => exact absurd rfl hne
    | cons item rest => rfl
  have hprepare : Gives (ix.prepare items) c (.ok ⟨⟩) (some (col.getD ⟨dimension, []⟩)) := by
    rw [prepare_eq, hhead, dimensionError?_eq_none_iff.2 ⟨hpos, hall⟩]
    exact gives_ensureCollection h hc hfits
  rw [upsert_eq, hempty, if_neg Bool.false_ne_true]
  refine hprepare.bind fun c' h' hc' => ?_
  rw [hb]
  refine gives_writeBatches h' hc' _ _ fun batch hbatch item hitem => ?_
  exact hids item ((Batch.mem_batches hb).1 (List.mem_flatten.2 ⟨batch, hbatch, hitem⟩))

/-- What a query shows of a point. -/
def shown (withMetadata : Bool) (found : Point × Score) : IndexMatch :=
  ⟨keyOf found.1, found.2, .dict (if withMetadata then
    (found.1.payload.erase keyField).map fun (k, x) => (k, .text x.plain) else [])⟩

theorem gives_query_nothing (ix : VectorIndex) (h : c.IsFaultless) (hc : c.collection = col)
    (v : Embedding) (topK : Int) (withMetadata : Bool) (hnone : topK ≤ 0 ∨ col = none) :
    Gives (ix.query v topK withMetadata) c (.ok []) col := by
  unfold VectorIndex.query
  by_cases hk : topK ≤ 0
  · rw [if_pos hk]
    exact gives_pure h hc _
  · obtain rfl : col = none := hnone.resolve_left hk
    rw [if_neg hk]
    refine (ix.gives_exists? h hc).bind fun c' h' hc' => ?_
    exact gives_pure h' hc' _

theorem gives_query (ix : VectorIndex) (h : c.IsFaultless) (hc : c.collection = some x)
    {v : Embedding} {topK : Int} (withMetadata : Bool) (hk : 0 < topK)
    (hv : x.dimension = some v.length) :
    Gives (ix.query v topK withMetadata) c
      (.ok ((x.nearest v topK.toNat).map (shown withMetadata))) (some x) := by
  unfold VectorIndex.query
  rw [if_neg (by omega)]
  refine (ix.gives_exists? h hc).bind fun c' h' hc' => ?_
  have hfound := gives_queryPoints h' hc' hv v topK withMetadata
  rw [if_pos rfl] at hfound
  refine (gives_guarded hfound).bind fun c'' h'' hc'' => ?_
  exact gives_pure h'' hc'' _

end VectorIndex

end CodeAtlas
