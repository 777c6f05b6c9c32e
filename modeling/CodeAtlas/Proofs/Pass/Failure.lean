import CodeAtlas.Proofs.Pass.Effect

/-!
# What a failed pass leaves behind

A pass that fails has written whole batches and deleted nothing. Batches hold whole files, so each
file has all of its new items stored or none, and no id that was stored is lost. A key is lost only
with the point that held it, when an item of another key was written under the point's id: a store
may hold a point under an id that is not the one of its key (`stored_key_lost`). A failure of the
scan, of reading a file, of the embedder or of the check of dimensions leaves the points as they
were.

    job.run ix w = (result, w') → succeeded result = false →
      ∃ batches n, w'.client.points =
        overlay w.client.points ((batches.take n).flatten.map pointOf) ∧ …     (points_after_failure)
-/

namespace CodeAtlas.Pass

open Collection VectorIndex

variable {σ : Type}

/-- A failure leaves the new items of some first batches over the old points, none if it comes
early. -/
theorem Job.Ends.of_error {job : Job} {ix : Indexer σ} {w : Workspace σ} {f : PassFailure}
    {report : Report} {points : List Point} (h : job.Ends ix w (.error f) report points) :
    ∃ batches n, Batch.batches? ix.index.batchSize (job.newItems ix w) = some batches ∧
      points = overlay w.client.points ((batches.take n).flatten.map pointOf) ∧
      (f.isEarly = true → n = 0) := by
  cases h with
  | early =>
    obtain ⟨batches, hb⟩ :=
      exists_batches_items ix.index.batchSize ix.project w.now (job.newPairs ix w)
    exact ⟨batches, 0, hb, by simp, fun _ => rfl⟩
  | late found n _ _ hf =>
    refine ⟨_, n, ?_, rfl, hf⟩
    rw [found.newItems_eq]
    exact found.batched

/-- Over old points, an id holds what it held or a new item. -/
theorem exists_overlay_items {old : List Point} {p : Point} (hp : p ∈ old) (items : List IndexItem) :
    ∃ q ∈ overlay old (items.map pointOf), q.id = p.id ∧
      (q ∈ old ∨ ∃ item ∈ items, q = pointOf item) := by
  obtain ⟨q, hq, hid⟩ := exists_id_overlay hp (items.map pointOf)
  refine ⟨q, hq, hid, ?_⟩
  rcases mem_overlay hq with hnew | hold
  · obtain ⟨item, hitem, rfl⟩ := List.mem_map.1 hnew
    exact Or.inr ⟨item, hitem, rfl⟩
  · exact Or.inl hold

/-- A stored key stays stored, unless an item of another key is written under the id of its point. -/
theorem exists_key_overlay {old : List Point} {p : Point} (hp : p ∈ old) (items : List IndexItem) :
    (∃ q ∈ overlay old (items.map pointOf), keyOf q = keyOf p) ∨
      ∃ item ∈ items, PointId.ofKey item.id = p.id ∧ keyOf p ≠ .text item.id := by
  by_cases h : ∃ q ∈ items.map pointOf, q.id = p.id
  · obtain ⟨q, hq, hqid⟩ := h
    obtain ⟨r, hr, hnew, hrid⟩ := exists_new_overlay old hq
    obtain ⟨item, hitem, rfl⟩ := List.mem_map.1 hnew
    by_cases hkey : keyOf p = .text item.id
    · exact Or.inl ⟨_, hr, (keyOf_pointOf item).trans hkey.symm⟩
    · exact Or.inr ⟨item, hitem, hrid.trans hqid, hkey⟩
  · exact Or.inl ⟨p, mem_overlay_of_not_written hp fun q hq hqid => h ⟨q, hq, hqid⟩, rfl⟩

/-- What a failed pass leaves behind. -/
theorem points_after_failure {job : Job} {ix : Indexer σ} {w w' : Workspace σ}
    {result : Except Escape Report} (h : job.run ix w = (result, w'))
    (hs : succeeded result = false) :
    ∃ f report batches n, job.failure? ix w = some f ∧ result = f.result report ∧
      Batch.batches? ix.index.batchSize (job.newItems ix w) = some batches ∧
      w'.client.points = overlay w.client.points ((batches.take n).flatten.map pointOf) ∧
      (∀ file, Batch.itemsOf (.text file) (batches.take n).flatten = [] ∨
        Batch.itemsOf (.text file) (batches.take n).flatten =
          Batch.itemsOf (.text file) (job.newItems ix w)) ∧
      (∀ p ∈ w.client.points, ∃ q ∈ w'.client.points, q.id = p.id ∧
        (q ∈ w.client.points ∨ ∃ item ∈ (batches.take n).flatten, q = pointOf item)) ∧
      (∀ p ∈ w.client.points, (∃ q ∈ w'.client.points, keyOf q = keyOf p) ∨
        ∃ item ∈ (batches.take n).flatten, PointId.ofKey item.id = p.id ∧
          keyOf p ≠ .text item.id) ∧
      (f.isEarly = true → w'.client.points = w.client.points) := by
  obtain ⟨f, report, hf, hr, hends⟩ := Job.run_failed h hs
  obtain ⟨batches, n, hb, hpts, hn⟩ := hends.of_error
  refine ⟨f, report, batches, n, hf, hr, hb, hpts, ?_, ?_, ?_, ?_⟩
  · exact fun file => Batch.itemsOf_take_batches hb n (.text file)
  · intro p hp
    rw [hpts]
    exact exists_overlay_items hp _
  · intro p hp
    rw [hpts]
    exact exists_key_overlay hp _
  · intro hearly
    rw [hpts, hn hearly]
    rfl

/-- A store that takes items but lists none. -/
def Sample.unlisted : Client := ⟨.text "code", none, [(.scroll, ⟨"down", 0⟩)], []⟩

/-- The items are written before the listing fails. -/
theorem points_after_failed_listing :
    ∃ f batches n,
      Job.full.failure? (Sample.indexer "a") (Sample.workspace Sample.unlisted) = some f ∧
      Batch.batches? 64 (Job.full.newItems (Sample.indexer "a") (Sample.workspace Sample.unlisted)) =
        some batches ∧
      (Job.full.run (Sample.indexer "a") (Sample.workspace Sample.unlisted)).2.client.points =
        overlay [] ((batches.take n).flatten.map pointOf) ∧
      (Job.full.run (Sample.indexer "a") (Sample.workspace Sample.unlisted)).2.client.points.map
        (·.file?) = [some ("m.py" : Text)] := by
  obtain ⟨f, _, batches, n, hf, -, hb, hpts, -⟩ := points_after_failure
    (Prod.eta (Job.full.run (Sample.indexer "a") (Sample.workspace Sample.unlisted))).symm
    (by decide +kernel)
  exact ⟨f, batches, n, hf, hb, hpts, by decide +kernel⟩

/-- A store that lists no items and holds a key of another file under the id of the one in `a`. -/
def Sample.misplaced : Client where
  name := .text "code"
  collection := some ⟨some 1, [⟨PointId.ofKey "m.py::m.py_unknown_python_func_0", [1],
    [("key", .text "x.py::old"), ("file_path", .text "x.py"), ("project", .text "/a")]⟩]⟩
  faults := [(.scroll, ⟨"down", 0⟩)]
  calls := []

/-- A failed pass can lose a stored key. -/
theorem stored_key_lost :
    ¬ ∀ (job : Job) (ix : Indexer Unit) (w : Workspace Unit), succeeded (job.run ix w).1 = false →
      ∀ p ∈ w.client.points, ∃ q ∈ (job.run ix w).2.client.points, keyOf q = keyOf p := by
  intro h
  have hold : ∀ p ∈ Sample.misplaced.points, (keyOf p).text? = some ("x.py::old" : Text) := by
    decide +kernel
  have hnew : ∀ q ∈ (Job.full.run (Sample.indexer "a")
      (Sample.workspace Sample.misplaced)).2.client.points,
        (keyOf q).text? = some ("m.py::m.py_unknown_python_func_0" : Text) := by decide +kernel
  obtain ⟨p, hp⟩ : ∃ p, p ∈ Sample.misplaced.points := ⟨_, List.mem_singleton_self _⟩
  obtain ⟨q, hq, hkey⟩ := h .full (Sample.indexer "a") (Sample.workspace Sample.misplaced)
    (by decide +kernel) p hp
  have hsame := hnew q hq
  rw [hkey, hold p hp] at hsame
  exact absurd hsame (by decide)

end CodeAtlas.Pass
