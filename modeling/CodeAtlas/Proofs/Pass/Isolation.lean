import CodeAtlas.Proofs.Pass.Effect

/-!
# Projects that share a collection

Keys do not tell projects apart, and a job that covers one file lists the points of that file
whatever their project. A point of another project is kept unless the job writes under its id or
covers its file:

    p ∈ w.client.points → p.project? = some other → other ≠ ix.project → … →
      p ∈ (job.run ix w).2.client.points                                    (other_project_kept)

A job that covers its file can indeed delete it (`remove_deletes_other_project`).
-/

namespace CodeAtlas.Pass

open Collection VectorIndex

variable {σ : Type}

/-- A key that a job deletes is the key of an old point that the job lists. -/
theorem Job.Pruned.exists_old {job : Job} {ix : Indexer σ} {w : Workspace σ} {xs : List Extracted}
    {items written : List IndexItem} {old : List Point} {deleted : List Text}
    (h : job.Pruned ix w xs items (overlay old (written.map pointOf)) deleted)
    (hw : ∀ item ∈ written, item ∈ items) {key : Text} (hkey : key ∈ deleted) :
    ∃ q ∈ old, job.Lists ix w q ∧ keyOf q = .text key := by
  cases h with
  | kept => cases hkey
  | pruned _ hs hl =>
    have hstale := (List.mem_filter.1 hkey).1
    obtain ⟨hstored, hfresh⟩ := List.mem_filter.1 hstale
    obtain ⟨q, hq, hacc, hk⟩ := hl.holds key hstored
    rcases mem_overlay hq with hnew | hold
    · obtain ⟨item, hitem, rfl⟩ := List.mem_map.1 hnew
      rw [keyOf_pointOf] at hk
      cases hk
      simp only [Bool.not_eq_true', List.any_eq_false, beq_iff_eq] at hfresh
      exact absurd rfl (hfresh item (hw item hitem))
    · exact ⟨q, hold, ⟨_, hs, hacc⟩, hk⟩

/-- A point stays if no item is written and no key deleted that has its id. -/
theorem mem_of_untouched {points : List Point} {items : List IndexItem} {deleted : List Text}
    {p : Point} (hp : p ∈ points) (hwritten : ∀ item ∈ items, PointId.ofKey item.id ≠ p.id)
    (hdeleted : ∀ key ∈ deleted, PointId.ofKey key ≠ p.id) :
    p ∈ without (overlay points (items.map pointOf)) (deleted.map PointId.ofKey) := by
  rw [mem_without]
  refine ⟨mem_overlay_of_not_written hp fun q hq => ?_, fun hid => ?_⟩
  · obtain ⟨item, hitem, rfl⟩ := List.mem_map.1 hq
    exact hwritten item hitem
  · obtain ⟨key, hkey, heq⟩ := List.mem_map.1 hid
    exact hdeleted key hkey heq

/-- A job lays the items of some first batches over the points and deletes keys of points that it
lists. -/
theorem Job.Ends.exists_written {job : Job} {ix : Indexer σ} {w : Workspace σ}
    {answer : Except PassFailure Unit} {report : Report} {points : List Point}
    (h : job.Ends ix w answer report points) :
    ∃ batches n, ∃ deleted : List Text,
      Batch.batches? ix.index.batchSize (job.newItems ix w) = some batches ∧
      points = without (overlay w.client.points ((batches.take n).flatten.map pointOf))
        (deleted.map PointId.ofKey) ∧
      (answer = .ok () → batches.length ≤ n) ∧
      (∀ f, answer = .error f → deleted = []) ∧
      ∀ key ∈ deleted, ∃ q ∈ w.client.points, job.Lists ix w q ∧ keyOf q = .text key := by
  cases h with
  | early =>
    obtain ⟨batches, hb⟩ :=
      exists_batches_items ix.index.batchSize ix.project w.now (job.newPairs ix w)
    exact ⟨batches, 0, [], hb, by simp, nofun, fun _ _ => rfl, nofun⟩
  | @late xs ps batches found n =>
    exact ⟨batches, n, [], found.newItems_eq ▸ found.batched, by simp, nofun, fun _ _ => rfl, nofun⟩
  | @done xs ps batches deleted found _ pruned =>
    refine ⟨batches, batches.length, deleted, found.newItems_eq ▸ found.batched,
      by rw [List.take_length], fun _ => Nat.le_refl _, nofun, fun key hkey => ?_⟩
    exact pruned.exists_old (fun item hi => (Batch.mem_batches found.batched).1 hi) hkey

/-- A job lays the items of some first batches over the points, all if it succeeds, and then deletes
keys, none if it does not. A point of another project is kept, unless such an item is written under
its id, or the job covers its file, or it lists another point whose key has its id. -/
theorem other_project_kept {job : Job} {ix : Indexer σ} {w : Workspace σ} {p : Point}
    {other : Text} (hp : p ∈ w.client.points) (hproject : p.project? = some other)
    (hother : other ≠ ix.project)
    (hfile : ∀ file, job.file? ix w = some file → p.holds "file_path" file = false)
    (hkeys : ∀ q ∈ w.client.points, q ≠ p → job.Lists ix w q →
      ∀ key, keyOf q = .text key → PointId.ofKey key ≠ p.id) :
    ∃ batches n deleted,
      Batch.batches? ix.index.batchSize (job.newItems ix w) = some batches ∧
      (job.run ix w).2.client.points =
        without (overlay w.client.points ((batches.take n).flatten.map pointOf)) deleted ∧
      (succeeded (job.run ix w).1 = true → batches.length ≤ n) ∧
      (succeeded (job.run ix w).1 = false → deleted = []) ∧
      ((∀ item ∈ (batches.take n).flatten, PointId.ofKey item.id ≠ p.id) →
        p ∈ (job.run ix w).2.client.points) := by
  obtain ⟨answer, report, hends, herror, hres⟩ := Job.run_cases (Prod.eta (job.run ix w)).symm
  obtain ⟨batches, n, deleted, hb, hpts, hall, hnone, hold⟩ := hends.exists_written
  refine ⟨batches, n, _, hb, hpts, fun hs => ?_, fun hs => ?_, fun hwritten => ?_⟩
  · rcases hres with ⟨ha, -, -⟩ | ⟨f, -, hr, -⟩
    · exact hall ha
    · rw [hr, succeeded_result] at hs
      cases hs
  · rcases hres with ⟨-, hr, -⟩ | ⟨f, ha, -, -⟩
    · rw [hr] at hs
      simp [succeeded, Report.success, herror] at hs
    · rw [hnone f ha, List.map_nil]
  · rw [hpts]
    refine mem_of_untouched hp hwritten fun key hkey hid => ?_
    obtain ⟨q, hq, hl, hk⟩ := hold key hkey
    by_cases hqp : q = p
    · subst hqp
      rcases Job.lists_iff.1 hl with ⟨-, hheld⟩ | ⟨file, hf, hheld⟩
      · exact absurd ((Point.holds_iff hproject _).1 hheld) hother
      · rw [hfile file hf] at hheld
        cases hheld
    · exact hkeys q hq hqp hl key hk hid

/-- A job of one project can delete a point of another. -/
theorem remove_deletes_other_project :
    ¬ ∀ (job : Job) (ix : Indexer Unit) (w : Workspace Unit) (p : Point) (other : Text),
      p ∈ w.client.points → p.project? = some other → other ≠ ix.project →
      p ∈ (job.run ix w).2.client.points := by
  intro h
  obtain ⟨p, hp, hproject⟩ := Sample.indexed_points
  have hkept := h (.remove (Sample.path "n.py")) (Sample.indexer "a") Sample.indexed p "/b"
    (by rw [hp]; exact List.mem_singleton_self p) hproject (by decide +kernel)
  have hgone : ((Job.remove (Sample.path "n.py")).run (Sample.indexer "a")
      Sample.indexed).2.client.points.length = 0 := by decide +kernel
  rw [List.eq_nil_of_length_eq_zero hgone] at hkept
  cases hkept

/-- Indexing the project `a` keeps what is stored for the file of the project `b`. -/
theorem index_keeps_other_project : ∃ p, Sample.indexed.client.points = [p] ∧
    p ∈ (Job.full.run (Sample.indexer "a") Sample.indexed).2.client.points := by
  obtain ⟨p, hp, hproject⟩ := Sample.indexed_points
  have hmem : p ∈ Sample.indexed.client.points := by rw [hp]; exact List.mem_singleton_self p
  obtain ⟨batches, n, _, hb, -, -, -, hkept⟩ :=
    @other_project_kept _ .full (Sample.indexer "a") _ _ _ hmem hproject
      (by decide +kernel) nofun fun q hq hne => by
        rw [hp, List.mem_singleton] at hq
        exact absurd hq hne
  refine ⟨p, hp, hkept fun item hitem => ?_⟩
  have hids : ∀ item ∈ Job.full.newItems (Sample.indexer "a") Sample.indexed,
      ∀ p ∈ Sample.indexed.client.points, PointId.ofKey item.id ≠ p.id := by decide +kernel
  exact hids item (Batch.mem_take_batches hb hitem) p hmem

end CodeAtlas.Pass
