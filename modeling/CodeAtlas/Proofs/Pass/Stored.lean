import CodeAtlas.Proofs.Pass.Effect
import Mathlib.Data.Set.Function

/-!
# Stores that passes have written

A store that only passes have written (`Reached`) holds points of units, no id twice (`Tidy`). On
such a store the points after a job are told by the last pair of each id (`latest`):

    q ∈ points after ↔ q is the point of the latest pair of its id, or
      q was stored, no pair has its id, and the job does not list it or spares its key   (mem_done)
-/

namespace CodeAtlas.Pass

open Collection VectorIndex

variable {σ : Type}

/-- Points of units under distinct ids. -/
structure Tidy (points : List Point) : Prop where
  distinct : DistinctIds points
  units : ∀ p ∈ points, ∃ project now u v, p = CodeUnit.point project now u v

theorem tidy_nil : Tidy [] := ⟨List.nodup_nil, by simp⟩

theorem Tidy.overlay {points : List Point} (h : Tidy points) {items : List IndexItem}
    {project now : Text} {ps : List (CodeUnit × Embedding)}
    (hi : ∀ item ∈ items, item ∈ ps.map (itemOf project now)) :
    Tidy (overlay points (items.map pointOf)) := by
  refine ⟨distinctIds_overlay h.distinct _, fun p hp => ?_⟩
  rcases mem_overlay hp with hnew | hold
  · obtain ⟨item, hitem, rfl⟩ := List.mem_map.1 hnew
    obtain ⟨⟨u, v⟩, -, rfl⟩ := List.mem_map.1 (hi item hitem)
    exact ⟨project, now, u, v, rfl⟩
  · exact h.units p hold

theorem Tidy.without {points : List Point} (h : Tidy points) (ids : List PointId) :
    Tidy (without points ids) :=
  ⟨distinctIds_without h.distinct ids, fun p hp => h.units p (mem_without.1 hp).1⟩

/-- However a job ends, it leaves points of units. -/
theorem Job.Ends.tidy {job : Job} {ix : Indexer σ} {w : Workspace σ}
    {answer : Except PassFailure Unit} {report : Report} {points : List Point}
    (h : job.Ends ix w answer report points) (ht : Tidy w.client.points) : Tidy points := by
  cases h with
  | early => exact ht
  | late found n => exact ht.overlay fun item hi => Batch.mem_take_batches found.batched hi
  | done found => exact (ht.overlay fun item hi => (Batch.mem_batches found.batched).1 hi).without _

/-- The collections that jobs of any indexers can leave, starting from none. -/
inductive Reached : Option Collection → Prop
  | absent : Reached none
  | after {σ : Type} (job : Job) (ix : Indexer σ) (w : Workspace σ) (h : Reached w.client.collection) :
    Reached (job.run ix w).2.client.collection

theorem Reached.tidy {collection : Option Collection} (h : Reached collection) :
    Tidy ((collection.map (·.points)).getD []) := by
  induction h with
  | absent => exact tidy_nil
  | after job ix w _ ih =>
    obtain ⟨answer, report, hends, -⟩ := Job.run_cases (Prod.eta (job.run ix w)).symm
    exact hends.tidy ih

/-! ## The latest pair of an id -/

/-- The last pair whose key has an id. -/
def latest (ps : List (CodeUnit × Embedding)) (id : PointId) : Option (CodeUnit × Embedding) :=
  ps.reverse.find? (PointId.ofKey ·.1.key = id)

theorem latest_eq_some {ps : List (CodeUnit × Embedding)} {id : PointId} {p : CodeUnit × Embedding}
    (h : latest ps id = some p) : p ∈ ps ∧ PointId.ofKey p.1.key = id := by
  refine ⟨List.mem_reverse.1 (List.mem_of_find?_eq_some h), ?_⟩
  simpa using List.find?_some h

theorem latest_eq_none_iff {ps : List (CodeUnit × Embedding)} {id : PointId} :
    latest ps id = none ↔ ∀ p ∈ ps, PointId.ofKey p.1.key ≠ id := by
  simp [latest, List.find?_eq_none]

/-- Pairs of one id are of one file. -/
def OneFile (ps : List (CodeUnit × Embedding)) : Prop :=
  ∀ p ∈ ps, ∀ q ∈ ps, PointId.ofKey p.1.key = PointId.ofKey q.1.key → p.1.filePath = q.1.filePath

/-- What is written last under an id is the latest pair, though batches change the order. -/
theorem pointAt_batches {size : Nat} {project now : Text} {ps : List (CodeUnit × Embedding)}
    {batches : List (List IndexItem)}
    (hb : Batch.batches? size (ps.map (itemOf project now)) = some batches) (hone : OneFile ps)
    (id : PointId) :
    pointAt (batches.flatten.map pointOf).reverse id =
      (latest ps id).map fun p => p.1.point project now p.2 := by
  have hgroup : ∀ a ∈ ps.map (itemOf project now), ∀ b ∈ ps.map (itemOf project now),
      PointId.ofKey a.id = id → PointId.ofKey b.id = id →
      Batch.groupKey? a = Batch.groupKey? b := by
    intro a ha b hb hia hib
    obtain ⟨p, hp, rfl⟩ := List.mem_map.1 ha
    obtain ⟨q, hq, rfl⟩ := List.mem_map.1 hb
    rw [groupKey?_itemOf, groupKey?_itemOf, hone p hp q hq (hia.trans hib.symm)]
  rw [pointAt_flatten_batches hb id hgroup, pointAt, ← List.map_reverse, ← List.map_reverse,
    List.find?_map, List.find?_map]
  unfold latest
  rw [Option.map_map]
  rfl

/-! ## The points after a job -/

/-- The keys that a job deletes, in full. -/
theorem Job.Pruned.mem_iff {job : Job} {ix : Indexer σ} {w : Workspace σ} {xs : List Extracted}
    {items : List IndexItem} {points : List Point} {deleted : List Text}
    (h : job.Pruned ix w xs items points deleted) (hd : DistinctIds points) (key : Text) :
    key ∈ deleted ↔ job.prunes ix xs = true ∧
      (∃ q ∈ points, job.Lists ix w q ∧ keyOf q = .text key) ∧
      (∀ item ∈ items, item.id ≠ key) ∧ job.spares xs key = false := by
  cases h with
  | kept hp => simp [hp]
  | @pruned filter stored hp hs hl =>
    have hstored : key ∈ stored ↔ ∃ q ∈ points, job.Lists ix w q ∧ keyOf q = .text key := by
      constructor
      · intro hk
        obtain ⟨q, hq, hacc, hkey⟩ := hl.holds key hk
        exact ⟨q, hq, ⟨filter, hs, hacc⟩, hkey⟩
      · rintro ⟨q, hq, ⟨filter', hs', hacc⟩, hkey⟩
        rw [hs] at hs'
        cases hs'
        exact hl.complete hd key ⟨q, hq, hacc, hkey⟩
    simp only [List.mem_filter, staleTexts, hstored, hp, true_and, Bool.not_eq_true',
      List.any_eq_false, beq_iff_eq]
    exact and_assoc

theorem Tidy.id_eq {points : List Point} (h : Tidy points) {p : Point} (hp : p ∈ points)
    {key : Text} (hk : keyOf p = .text key) : p.id = PointId.ofKey key := by
  obtain ⟨project, now, u, v, rfl⟩ := h.units p hp
  rw [CodeUnit.keyOf_point] at hk
  cases hk
  rfl

/-- A key is deleted for the sake of the one point that has its id. -/
theorem Job.Pruned.mem_ids_iff {job : Job} {ix : Indexer σ} {w : Workspace σ} {xs : List Extracted}
    {items : List IndexItem} {points : List Point} {deleted : List Text}
    (pruned : job.Pruned ix w xs items points deleted) (tidy : Tidy points) {q : Point}
    (hq : q ∈ points) : q.id ∈ deleted.map PointId.ofKey ↔
      job.prunes ix xs = true ∧ job.Lists ix w q ∧ ∃ key, keyOf q = .text key ∧
        (∀ item ∈ items, item.id ≠ key) ∧ job.spares xs key = false := by
  rw [List.mem_map]
  constructor
  · rintro ⟨key, hkey, hid⟩
    obtain ⟨hp, ⟨r, hr, hl, hk⟩, hitems, hs⟩ := (pruned.mem_iff tidy.distinct key).1 hkey
    obtain rfl : r = q := eq_of_id_eq tidy.distinct hr hq ((tidy.id_eq hr hk).trans hid)
    exact ⟨hp, hl, key, hk, hitems, hs⟩
  · rintro ⟨hp, hl, key, hk, hitems, hs⟩
    exact ⟨key, (pruned.mem_iff tidy.distinct key).2 ⟨hp, ⟨q, hq, hl, hk⟩, hitems, hs⟩,
      (tidy.id_eq hq hk).symm⟩

/-- The points after a job that is done: the latest pair of each id, and what was stored before and
is neither written nor deleted. -/
theorem Job.mem_done {job : Job} {ix : Indexer σ} {w : Workspace σ} {xs : List Extracted}
    {ps : List (CodeUnit × Embedding)} {batches : List (List IndexItem)} {deleted : List Text}
    (found : job.Found ix w xs ps batches)
    (pruned : job.Pruned ix w xs (ps.map (itemOf ix.project w.now))
      (Collection.overlay w.client.points (batches.flatten.map pointOf)) deleted)
    (tidy : Tidy w.client.points) (hone : OneFile ps) (q : Point) :
    q ∈ Collection.without (Collection.overlay w.client.points (batches.flatten.map pointOf))
        (deleted.map PointId.ofKey) ↔
      (∃ p, latest ps q.id = some p ∧ q = p.1.point ix.project w.now p.2) ∨
      (latest ps q.id = none ∧ q ∈ w.client.points ∧
        (job.prunes ix xs = true → job.Lists ix w q →
          ∃ key, keyOf q = .text key ∧ job.spares xs key = true)) := by
  have tidy' : Tidy (Collection.overlay w.client.points (batches.flatten.map pointOf)) :=
    tidy.overlay fun item hi => (Batch.mem_batches found.batched).1 hi
  have hmem : q ∈ Collection.overlay w.client.points (batches.flatten.map pointOf) ↔
      ((latest ps q.id).map fun p => p.1.point ix.project w.now p.2).or
        (pointAt w.client.points q.id) = some q := by
    rw [mem_iff_pointAt tidy'.distinct, pointAt_overlay, pointAt_batches found.batched hone]
  have hdel : q ∈ Collection.overlay w.client.points (batches.flatten.map pointOf) →
      (q.id ∈ deleted.map PointId.ofKey ↔ job.prunes ix xs = true ∧ job.Lists ix w q ∧
        ∃ key, keyOf q = .text key ∧ (∀ p ∈ ps, p.1.key ≠ key) ∧ job.spares xs key = false) := by
    intro hq
    rw [pruned.mem_ids_iff tidy' hq]
    simp only [List.forall_mem_map, itemOf]
  rw [mem_without]
  cases hlast : latest ps q.id with
  | some p =>
    rw [hlast] at hmem
    simp only [Option.map_some, Option.some_or, Option.some.injEq] at hmem
    constructor
    · rintro ⟨hq, -⟩
      exact Or.inl ⟨p, rfl, (hmem.1 hq).symm⟩
    · rintro (⟨p', hp', hqp⟩ | ⟨hx, -⟩)
      · cases hp'
        have hq := hmem.2 hqp.symm
        refine ⟨hq, fun hid => ?_⟩
        obtain ⟨-, -, key, hk, hitems, -⟩ := (hdel hq).1 hid
        rw [hqp, CodeUnit.keyOf_point] at hk
        cases hk
        exact hitems p (latest_eq_some hlast).1 rfl
      · cases hx
  | none =>
    rw [hlast] at hmem
    simp only [Option.map_none, Option.none_or, ← mem_iff_pointAt tidy.distinct] at hmem
    rw [hmem]
    constructor
    · rintro ⟨hq, hid⟩
      refine Or.inr ⟨rfl, hq, fun hp hl => ?_⟩
      obtain ⟨project, now, u, v, hu⟩ := tidy.units q hq
      have hk : keyOf q = .text u.key := by rw [hu, CodeUnit.keyOf_point]
      refine ⟨u.key, hk, ?_⟩
      cases hs : job.spares xs u.key with
      | true => rfl
      | false =>
        refine absurd ((hdel (hmem.2 hq)).2 ⟨hp, hl, u.key, hk, fun p hps hkey => ?_, hs⟩) hid
        refine latest_eq_none_iff.1 hlast p hps ?_
        rw [hkey, tidy.id_eq hq hk]
    · rintro (⟨p, hx, -⟩ | ⟨-, hq, hspared⟩)
      · cases hx
      · refine ⟨hq, fun hid => ?_⟩
        obtain ⟨hp, hl, key, hk, -, hs⟩ := (hdel (hmem.2 hq)).1 hid
        obtain ⟨key', hk', hs'⟩ := hspared hp hl
        rw [hk] at hk'
        cases hk'
        rw [hs] at hs'
        cases hs'

/-- Keys whose ids differ are told apart by them. -/
theorem injOn_ofKey {keys : List Text} (h : (keys.map PointId.ofKey).Nodup) :
    Set.InjOn PointId.ofKey { key | key ∈ keys } :=
  fun _ ha _ hb hab => List.inj_on_of_nodup_map h ha hb hab

end CodeAtlas.Pass
