import CodeAtlas.Proofs.Pass.Stored

/-!
# A full pass brings the store up to date

After a full pass that succeeds and prunes, the store has for its project the keys of the units
found, and of the keys before only those of files that were skipped. Each key that was found holds
the last unit of that key, points of other projects under other keys are as they were, and a second
pass over the same files changes nothing but times:

    (full ix).run w = (.ok report, w') → report.success → … →
      (StoredFor ix.project w'.client.points key ↔ …) ∧ …              (full_pass_converges)
-/

namespace CodeAtlas.Pass

open Collection VectorIndex

variable {σ : Type}

/-- Whether a key is stored for a project. -/
def StoredFor (project : Text) (points : List Point) (key : Text) : Prop :=
  ∃ p ∈ points, p.project? = some project ∧ p.key? = some key

/-- The keys that a full pass has to do with: those that are stored and those of the units found. -/
def keysInvolved (ix : Indexer σ) (w : Workspace σ) : Set Text :=
  { key | (∃ p ∈ w.client.points, p.key? = some key) ∨
    ∃ xs, survey ix w = .ok xs ∧ ∃ u ∈ (unitLists xs).flatten, u.key = key }

theorem keysInvolved_subset {ix : Indexer σ} {w : Workspace σ} {stored found : List Text}
    (hstored : w.client.points.map Point.key? = stored.map some)
    (hfound : (survey ix w).toOption.map (fun xs => (unitLists xs).flatten.map (·.key)) =
      some found) :
    keysInvolved ix w ⊆ { key | key ∈ stored ++ found } := by
  rintro key (⟨p, hp, hk⟩ | ⟨xs, hxs, u, hu, rfl⟩)
  · have hmem : some key ∈ stored.map some := by
      rw [← hstored, ← hk]
      exact List.mem_map_of_mem hp
    obtain ⟨key', hkey, hk'⟩ := List.mem_map.1 hmem
    cases hk'
    exact List.mem_append_left _ hkey
  · rw [hxs] at hfound
    cases hfound
    exact List.mem_append_right _ (List.mem_map_of_mem hu)

/-- The last pair of a key. -/
def lastOf (ps : List (CodeUnit × Embedding)) (key : Text) : Option (CodeUnit × Embedding) :=
  ps.reverse.find? (·.1.key = key)

/-! ## What is found -/

theorem flatten_filled (lists : List (List CodeUnit)) : (filled lists).flatten = lists.flatten := by
  unfold filled
  exact List.flatten_filter_not_isEmpty

/-- The units of a file have its path. -/
theorem filePath_of_mem_survey {ix : Indexer σ} {w : Workspace σ} {xs : List Extracted}
    (h : survey ix w = .ok xs) {x : Extracted} (hx : x ∈ xs) {units : List CodeUnit}
    (hunits : x.units = .ok units) : ∀ u ∈ units, u.filePath = x.file := by
  unfold survey at h
  cases hp : sourcePaths ix w with
  | error f => rw [hp] at h; cases h
  | ok paths =>
    rw [hp] at h
    obtain ⟨path, -, hpath⟩ := (of_mapM_ok h).2 x hx
    exact inspect_ok hpath units hunits

/-- The units of a survey are of the files that it found. -/
theorem exists_of_mem_survey {ix : Indexer σ} {w : Workspace σ} {xs : List Extracted}
    (h : survey ix w = .ok xs) {u : CodeUnit} (hu : u ∈ (unitLists xs).flatten) :
    ∃ x ∈ xs, u.filePath = x.file := by
  obtain ⟨units, hunits, hu⟩ := List.mem_flatten.1 hu
  obtain ⟨x, hx, hxu⟩ := List.mem_filterMap.1 hunits
  refine ⟨x, hx, filePath_of_mem_survey h hx ?_ u hu⟩
  cases hxs : x.units with
  | error e => rw [hxs] at hxu; cases hxu
  | ok us => rw [hxs] at hxu; cases hxu; rfl

/-- What a survey finds depends on the disk and the grammars only. -/
theorem survey_congr (ix : Indexer σ) {w w' : Workspace σ} (hd : w'.disk = w.disk)
    (hg : w'.grammars = w.grammars) : survey ix w' = survey ix w := by
  have hi : inspect ix w' = inspect ix w := by
    funext path
    unfold inspect extractFile
    rw [hd, hg]
  unfold survey sourcePaths
  rw [hd, hi]

/-! ## A pass that is done -/

theorem Job.Ends.of_ok {job : Job} {ix : Indexer σ} {w : Workspace σ} {report : Report}
    {points : List Point} (h : job.Ends ix w (.ok ()) report points) :
    ∃ xs ps batches deleted, job.Found ix w xs ps batches ∧
      job.Pruned ix w xs (ps.map (itemOf ix.project w.now))
        (overlay w.client.points (batches.flatten.map pointOf)) deleted ∧
      report.staleRemoved = deleted.length ∧
      (∀ file, file ∈ report.skippedFiles.map (·.1) ↔ file ∈ skippedOf xs) ∧
      points = without (overlay w.client.points (batches.flatten.map pointOf))
        (deleted.map PointId.ofKey) := by
  cases h with
  | done found _ pruned removed skipped => exact ⟨_, _, _, _, found, pruned, removed, skipped, rfl⟩

theorem Tidy.keyOf_eq {points : List Point} (h : Tidy points) {p : Point} (hp : p ∈ points)
    {key : Text} : keyOf p = .text key ↔ p.key? = some key := by
  obtain ⟨project, now, u, v, rfl⟩ := h.units p hp
  simp

/-- Where ids tell keys apart, pairs of one id are of one file. -/
theorem oneFile_of_injOn {ps : List (CodeUnit × Embedding)}
    (hplain : ∀ p ∈ ps, IsPlainPath p.1.filePath)
    (hinj : Set.InjOn PointId.ofKey { key | ∃ p ∈ ps, p.1.key = key }) : OneFile ps := by
  intro p hp q hq hid
  exact CodeUnit.filePath_eq_of_key_eq (hplain p hp) (hplain q hq)
    (hinj ⟨p, hp, rfl⟩ ⟨q, hq, rfl⟩ hid)

section
variable {ix : Indexer σ} {w : Workspace σ} {xs : List Extracted}
  {ps : List (CodeUnit × Embedding)} {batches : List (List IndexItem)} {deleted : List Text}

theorem Job.Found.units (found : Job.full.Found ix w xs ps batches) :
    ps.map (·.1) = (unitLists xs).flatten := by
  rw [Embedder.units_pairs found.embedded]
  exact flatten_filled _

theorem Job.Found.mem_units (found : Job.full.Found ix w xs ps batches) {u : CodeUnit} :
    u ∈ (unitLists xs).flatten ↔ ∃ p ∈ ps, p.1 = u := by
  rw [← found.units, List.mem_map]

theorem Job.Found.oneFile (found : Job.full.Found ix w xs ps batches)
    (hplain : ∀ x ∈ xs, IsPlainPath x.file) {keys : Set Text}
    (hinj : Set.InjOn PointId.ofKey keys) (hkeys : ∀ u ∈ (unitLists xs).flatten, u.key ∈ keys) :
    OneFile ps := by
  refine oneFile_of_injOn ?_ (hinj.mono ?_)
  · intro p hp
    obtain ⟨x, hx, hfile⟩ := exists_of_mem_survey found.inspected (found.mem_units.2 ⟨p, hp, rfl⟩)
    rw [hfile]
    exact hplain x hx
  · rintro key ⟨p, hp, rfl⟩
    exact hkeys p.1 (found.mem_units.2 ⟨p, hp, rfl⟩)

/-- The points after a full pass that prunes: of the old points of the project only those of skipped
files stay. -/
theorem mem_full (found : Job.full.Found ix w xs ps batches)
    (pruned : Job.full.Pruned ix w xs (ps.map (itemOf ix.project w.now))
      (overlay w.client.points (batches.flatten.map pointOf)) deleted)
    (hprune : ix.pruneStale = true) (tidy : Tidy w.client.points) (hone : OneFile ps)
    (hstored : ∀ p ∈ w.client.points, ∀ file, p.file? = some file → IsPlainPath file)
    (hskipped : ∀ file ∈ skippedOf xs, IsPlainPath file) (q : Point) :
    q ∈ without (overlay w.client.points (batches.flatten.map pointOf))
        (deleted.map PointId.ofKey) ↔
      (∃ p, latest ps q.id = some p ∧ q = p.1.point ix.project w.now p.2) ∨
      (latest ps q.id = none ∧ q ∈ w.client.points ∧
        (q.project? = some ix.project → ∃ file ∈ skippedOf xs, q.file? = some file)) := by
  rw [Job.mem_done found pruned tidy hone]
  refine or_congr_right (and_congr_right fun _ => and_congr_right fun hq => ?_)
  obtain ⟨project, now, u, v, hu⟩ := tidy.units q hq
  have hplain := hstored q hq u.filePath (by rw [hu]; simp)
  have hlists : Job.full.Lists ix w q ↔ q.project? = some ix.project := by
    rw [Job.lists_iff]
    have hp : q.text? "project" = some project := by rw [hu]; exact CodeUnit.point_project? ..
    simp [Job.file?, Point.holds_iff hp, show q.project? = some project from hp]
  have hspares : (∃ key, keyOf q = .text key ∧ Job.full.spares xs key = true) ↔
      ∃ file ∈ skippedOf xs, q.file? = some file := by
    have hkey : ∀ key, keyOf q = .text key ↔ key = u.key := by
      intro key
      rw [hu, CodeUnit.keyOf_point]
      simp [eq_comm]
    simp only [hkey, exists_eq_left, Job.spares]
    rw [CodeUnit.keyInFiles_key hplain hskipped, hu]
    simp [eq_comm]
  rw [hlists, hspares]
  exact ⟨fun h => h hprune, fun h _ => h⟩

end

/-- What a full pass that prunes has made of the store. -/
structure Refreshed (ix : Indexer σ) (w w' : Workspace σ) (xs : List Extracted)
    (ps : List (CodeUnit × Embedding)) : Prop where
  surveyed : survey ix w = .ok xs
  embedded : ix.embedder.pairs (filled (unitLists xs)) w.embedding = some ps
  before : Tidy w.client.points
  after : Tidy w'.client.points
  mem : ∀ q, q ∈ w'.client.points ↔
    (∃ p, latest ps q.id = some p ∧ q = p.1.point ix.project w.now p.2) ∨
    (latest ps q.id = none ∧ q ∈ w.client.points ∧
      (q.project? = some ix.project → ∃ file ∈ skippedOf xs, q.file? = some file))

section
variable {ix : Indexer σ} {w w' : Workspace σ}

/-- A full pass that succeeds refreshes the store. -/
theorem refreshed_of_success {report : Report} (hprune : ix.pruneStale = true)
    (tidy : Tidy w.client.points)
    (hstored : ∀ p ∈ w.client.points, ∀ file, p.file? = some file → IsPlainPath file)
    (hfiles : ∀ xs, survey ix w = .ok xs → ∀ x ∈ xs, IsPlainPath x.file)
    (hinj : Set.InjOn PointId.ofKey (keysInvolved ix w))
    (hrun : Job.full.run ix w = (.ok report, w')) (hsuccess : report.success = true) :
    ∃ xs ps, Refreshed ix w w' xs ps ∧
      ∀ file, file ∈ report.skippedFiles.map (·.1) ↔ file ∈ skippedOf xs := by
  have hends := Job.run_succeeded hrun hsuccess
  obtain ⟨xs, ps, batches, deleted, found, pruned, -, hskipped, hpts⟩ := hends.of_ok
  have hone : OneFile ps := found.oneFile (hfiles xs found.inspected) hinj
    fun u hu => Or.inr ⟨xs, found.inspected, u, hu, rfl⟩
  refine ⟨xs, ps, ⟨found.inspected, found.embedded, tidy, hends.tidy tidy, fun q => ?_⟩, hskipped⟩
  rw [hpts]
  refine mem_full found pruned hprune tidy hone hstored ?_ q
  intro file hfile
  obtain ⟨x, hx, rfl⟩ := List.mem_map.1 hfile
  exact hfiles xs found.inspected x (List.mem_filter.1 hx).1

variable {xs : List Extracted} {ps : List (CodeUnit × Embedding)}

namespace Refreshed

theorem mem_units (h : Refreshed ix w w' xs ps) {u : CodeUnit} :
    u ∈ (unitLists xs).flatten ↔ ∃ p ∈ ps, p.1 = u := by
  rw [← flatten_filled, ← Embedder.units_pairs h.embedded, List.mem_map]

theorem mem_keysInvolved (h : Refreshed ix w w' xs ps) {p : CodeUnit × Embedding} (hp : p ∈ ps) :
    p.1.key ∈ keysInvolved ix w :=
  Or.inr ⟨xs, h.surveyed, p.1, h.mem_units.2 ⟨p, hp, rfl⟩, rfl⟩

/-- The latest pair of an id is stored. -/
theorem mem_of_latest (h : Refreshed ix w w' xs ps) {id : PointId} {p : CodeUnit × Embedding}
    (hp : latest ps id = some p) : p.1.point ix.project w.now p.2 ∈ w'.client.points := by
  refine (h.mem _).2 (Or.inl ⟨p, ?_, rfl⟩)
  rw [CodeUnit.point_id, (latest_eq_some hp).2]
  exact hp

/-- Plain paths stay plain. -/
theorem isPlainPath_stored (h : Refreshed ix w w' xs ps)
    (hstored : ∀ p ∈ w.client.points, ∀ file, p.file? = some file → IsPlainPath file)
    (hplain : ∀ x ∈ xs, IsPlainPath x.file) :
    ∀ q ∈ w'.client.points, ∀ file, q.file? = some file → IsPlainPath file := by
  intro q hq file hfile
  rcases (h.mem q).1 hq with ⟨p, hp, rfl⟩ | ⟨-, hold, -⟩
  · obtain ⟨x, hx, hpx⟩ := exists_of_mem_survey h.surveyed
      (h.mem_units.2 ⟨p, (latest_eq_some hp).1, rfl⟩)
    rw [CodeUnit.point_file?, Option.some.injEq] at hfile
    rw [← hfile, hpx]
    exact hplain x hx
  · exact hstored q hold file hfile

/-- The keys stored for the project are those found, and those before of skipped files. -/
theorem storedFor_iff (h : Refreshed ix w w' xs ps)
    (hinj : Set.InjOn PointId.ofKey (keysInvolved ix w)) (key : Text) :
    StoredFor ix.project w'.client.points key ↔
      (∃ u ∈ (unitLists xs).flatten, u.key = key) ∨
      ∃ p ∈ w.client.points, p.project? = some ix.project ∧ p.key? = some key ∧
        ∃ file ∈ skippedOf xs, p.file? = some file := by
  -- a key whose id is written is stored, since no other key has its id
  have hwritten : ∀ p, latest ps (PointId.ofKey key) = some p → key ∈ keysInvolved ix w →
      StoredFor ix.project w'.client.points key := by
    intro p hp hkey
    obtain ⟨hps, hid⟩ := latest_eq_some hp
    have hpk : p.1.key = key := hinj (h.mem_keysInvolved hps) hkey hid
    exact ⟨_, h.mem_of_latest hp, by simp, by simp [hpk]⟩
  constructor
  · rintro ⟨q, hq, hproject, hk⟩
    rcases (h.mem q).1 hq with ⟨p, hp, rfl⟩ | ⟨-, hold, hspared⟩
    · left
      rw [CodeUnit.point_key?, Option.some.injEq] at hk
      exact ⟨p.1, h.mem_units.2 ⟨p, (latest_eq_some hp).1, rfl⟩, hk⟩
    · exact Or.inr ⟨q, hold, hproject, hk, hspared hproject⟩
  · rintro (⟨u, hu, rfl⟩ | ⟨q, hq, hproject, hk, hspared⟩)
    · obtain ⟨p, hp, rfl⟩ := h.mem_units.1 hu
      cases hl : latest ps (PointId.ofKey p.1.key) with
      | none => exact absurd rfl (latest_eq_none_iff.1 hl p hp)
      | some p' => exact hwritten p' hl (h.mem_keysInvolved hp)
    · have hid : q.id = PointId.ofKey key := h.before.id_eq hq ((h.before.keyOf_eq hq).2 hk)
      cases hl : latest ps q.id with
      | none => exact ⟨q, (h.mem q).2 (Or.inr ⟨hl, hq, fun _ => hspared⟩), hproject, hk⟩
      | some p => exact hwritten p (hid ▸ hl) (Or.inl ⟨q, hq, hk⟩)

/-- A key that was found holds the last unit of that key. -/
theorem holds_last (h : Refreshed ix w w' xs ps)
    (hinj : Set.InjOn PointId.ofKey (keysInvolved ix w)) {key : Text} {u : CodeUnit}
    {v : Embedding} (hlast : lastOf ps key = some (u, v)) (q : Point) :
    q ∈ w'.client.points ∧ q.key? = some key ↔ q = u.point ix.project w.now v := by
  have hkey : u.key = key := by simpa using List.find?_some hlast
  have hu : (u, v) ∈ ps := List.mem_reverse.1 (List.mem_of_find?_eq_some hlast)
  have hlatest : latest ps (PointId.ofKey key) = some (u, v) := by
    have hsame : ps.reverse.filter (PointId.ofKey ·.1.key = PointId.ofKey key) =
        ps.reverse.filter (·.1.key = key) := by
      apply List.filter_congr
      intro p hp
      rw [decide_eq_decide]
      refine ⟨fun hid => ?_, fun hk => by rw [hk]⟩
      exact hinj (h.mem_keysInvolved (List.mem_reverse.1 hp)) (hkey ▸ h.mem_keysInvolved hu) hid
    rw [latest, ← List.head?_filter, hsame, List.head?_filter]
    exact hlast
  constructor
  · rintro ⟨hq, hk⟩
    have hid : q.id = PointId.ofKey key := h.after.id_eq hq ((h.after.keyOf_eq hq).2 hk)
    rcases (h.mem q).1 hq with ⟨p, hp, hqp⟩ | ⟨hnone, -⟩
    · rw [hid, hlatest] at hp
      cases hp
      exact hqp
    · rw [hid, hlatest] at hnone
      cases hnone
  · rintro rfl
    have hmem := h.mem_of_latest hlatest
    exact ⟨hmem, by simp [hkey]⟩

/-- The points of other projects are as before, those under keys that were found being gone. -/
theorem mem_other (h : Refreshed ix w w' xs ps)
    (hinj : Set.InjOn PointId.ofKey (keysInvolved ix w)) {q : Point}
    (hq : q.project? ≠ some ix.project) :
    q ∈ w'.client.points ↔ q ∈ w.client.points ∧
      ∀ u ∈ (unitLists xs).flatten, q.key? ≠ some u.key := by
  have hnone : q ∈ w.client.points → (latest ps q.id = none ↔
      ∀ u ∈ (unitLists xs).flatten, q.key? ≠ some u.key) := by
    intro hold
    obtain ⟨project, now, u', v, hu'⟩ := h.before.units q hold
    have hk : q.key? = some u'.key := by rw [hu']; simp
    have hid : q.id = PointId.ofKey u'.key := by rw [hu']; rfl
    rw [latest_eq_none_iff]
    constructor
    · intro hl u hu hku
      obtain ⟨p, hp, rfl⟩ := h.mem_units.1 hu
      rw [hk, Option.some.injEq] at hku
      exact hl p hp (by rw [hid, hku])
    · intro hl p hp hpid
      have hkey : p.1.key = u'.key :=
        hinj (h.mem_keysInvolved hp) (Or.inl ⟨q, hold, hk⟩) (hpid.trans hid)
      exact hl p.1 (h.mem_units.2 ⟨p, hp, rfl⟩) (by rw [hk, hkey])
  rw [h.mem]
  constructor
  · rintro (⟨p, -, rfl⟩ | ⟨hl, hold, -⟩)
    · exact absurd (CodeUnit.point_project? ..) hq
    · exact ⟨hold, (hnone hold).1 hl⟩
  · rintro ⟨hold, hl⟩
    exact Or.inr ⟨(hnone hold).2 hl, hold, fun hx => absurd hx hq⟩

/-! ## A second pass -/

variable {w₂ w₃ : Workspace σ} {ps₂ : List (CodeUnit × Embedding)}
  {batches₂ : List (List IndexItem)} {deleted₂ : List Text}

/-- A second pass over the same files has nothing to delete. -/
theorem nothing_stale (h : Refreshed ix w w' xs ps)
    (hinj : Set.InjOn PointId.ofKey (keysInvolved ix w))
    (hstored : ∀ p ∈ w.client.points, ∀ file, p.file? = some file → IsPlainPath file)
    (hskipped : ∀ file ∈ skippedOf xs, IsPlainPath file)
    (hpts : w₂.client.points = w'.client.points) (found : Job.full.Found ix w₂ xs ps₂ batches₂)
    (pruned : Job.full.Pruned ix w₂ xs (ps₂.map (itemOf ix.project w₂.now))
      (overlay w₂.client.points (batches₂.flatten.map pointOf)) deleted₂) : deleted₂ = [] := by
  have tidy₂ : Tidy (overlay w₂.client.points (batches₂.flatten.map pointOf)) :=
    (hpts ▸ h.after).overlay fun item hi => (Batch.mem_batches found.batched).1 hi
  rw [List.eq_nil_iff_forall_not_mem]
  intro key hkey
  obtain ⟨-, ⟨q, hq, hl, hk⟩, hitems, hs⟩ := (pruned.mem_iff tidy₂.distinct key).1 hkey
  rcases mem_overlay hq with hnew | hold
  · obtain ⟨item, hitem, rfl⟩ := List.mem_map.1 hnew
    rw [keyOf_pointOf] at hk
    cases hk
    exact hitems item ((Batch.mem_batches found.batched).1 hitem) rfl
  · rw [hpts] at hold
    have hk' := (h.after.keyOf_eq hold).1 hk
    have hproject : q.project? = some ix.project := by
      obtain ⟨project, now, u, v, hu⟩ := h.after.units q hold
      have hp : q.project? = some project := by rw [hu]; simp
      rcases Job.lists_iff.1 hl with ⟨-, hheld⟩ | ⟨file, hf, -⟩
      · rw [hp, (Point.holds_iff hp _).1 hheld]
      · cases hf
    rcases (h.storedFor_iff hinj key).1 ⟨q, hold, hproject, hk'⟩ with
      ⟨u, hu, rfl⟩ | ⟨p, hp, -, hpk, file, hfile, hpf⟩
    · obtain ⟨p, hp, rfl⟩ := found.mem_units.1 hu
      exact hitems _ (List.mem_map_of_mem hp) rfl
    · obtain ⟨project, now, u, v, rfl⟩ := h.before.units p hp
      have hplain := hstored _ hp u.filePath (by simp)
      rw [CodeUnit.point_key?, Option.some.injEq] at hpk
      rw [CodeUnit.point_file?, Option.some.injEq] at hpf
      have hspared : Job.full.spares xs key = true := by
        rw [← hpk]
        exact (CodeUnit.keyInFiles_key hplain hskipped).2 (hpf ▸ hfile)
      rw [hs] at hspared
      cases hspared

/-- The unit of the latest pair does not depend on the vectors. -/
theorem latest_units (ps : List (CodeUnit × Embedding)) (id : PointId) :
    (latest ps id).map (·.1) = (ps.map (·.1)).reverse.find? (PointId.ofKey ·.key = id) := by
  rw [latest, ← List.map_reverse, List.find?_map]
  rfl

/-- Writing the same units again changes nothing that the two times and vectors of a unit agree
on. -/
theorem map_again {β : Type} (f : Point → β) (h : Refreshed ix w w' xs ps) (hone : OneFile ps₂)
    (hpts : w₂.client.points = w'.client.points) (found : Job.full.Found ix w₂ xs ps₂ batches₂)
    (hf : ∀ id u v v₂, latest ps id = some (u, v) → latest ps₂ id = some (u, v₂) →
      f (u.point ix.project w₂.now v₂) = f (u.point ix.project w.now v)) :
    (overlay w₂.client.points (batches₂.flatten.map pointOf)).map f = w'.client.points.map f := by
  have hunits : ∀ id, (latest ps₂ id).map (·.1) = (latest ps id).map (·.1) := by
    intro id
    rw [latest_units, latest_units, found.units, Embedder.units_pairs h.embedded, flatten_filled]
  rw [hpts]
  apply map_eq_of_pointAt f h.after.distinct
  · apply ids_overlay
    intro q hq
    obtain ⟨item, hitem, rfl⟩ := List.mem_map.1 hq
    obtain ⟨p₂, hp₂, rfl⟩ := List.mem_map.1 ((Batch.mem_batches found.batched).1 hitem)
    cases hl : latest ps (PointId.ofKey p₂.1.key) with
    | none =>
      have hnone := hunits (PointId.ofKey p₂.1.key)
      rw [hl, Option.map_none, Option.map_eq_none_iff] at hnone
      exact absurd rfl (latest_eq_none_iff.1 hnone p₂ hp₂)
    | some p =>
      refine List.mem_map.2 ⟨_, h.mem_of_latest hl, ?_⟩
      exact (latest_eq_some hl).2
  · intro id
    rw [pointAt_overlay, pointAt_batches found.batched hone]
    cases hl₂ : latest ps₂ id with
    | none => rfl
    | some p₂ =>
      obtain ⟨p, hl, hp⟩ : ∃ p, latest ps id = some p ∧ p.1 = p₂.1 := by
        have hsome := hunits id
        rw [hl₂, Option.map_some] at hsome
        exact Option.map_eq_some_iff.1 hsome.symm
      have hstored : pointAt w'.client.points id = some (p.1.point ix.project w.now p.2) := by
        have hmem := (mem_iff_pointAt h.after.distinct _).1 (h.mem_of_latest hl)
        rwa [CodeUnit.point_id, (latest_eq_some hl).2] at hmem
      obtain ⟨u, v⟩ := p
      obtain ⟨u₂, v₂⟩ := p₂
      dsimp only at hp
      subst hp
      rw [hstored, Option.map_some, Option.some_or, Option.map_some, Option.map_some]
      rw [hf id u v v₂ hl hl₂]

end Refreshed

end

/-- A full pass that succeeds and prunes brings the store up to date, and a second one finds it so. -/
theorem full_pass_converges {ix : Indexer σ} {w w' : Workspace σ} {report : Report}
    (hprune : ix.pruneStale = true) (hreached : Reached w.client.collection)
    (hstored : ∀ p ∈ w.client.points, ∀ file, p.file? = some file → IsPlainPath file)
    (hfiles : ∀ xs, survey ix w = .ok xs → ∀ x ∈ xs, IsPlainPath x.file)
    (hinj : Set.InjOn PointId.ofKey (keysInvolved ix w))
    (hrun : (full ix).run w = (.ok report, w')) (hsuccess : report.success = true) :
    ∃ xs ps, survey ix w = .ok xs ∧
      ix.embedder.pairs (filled (unitLists xs)) w.embedding = some ps ∧
      ps.map (·.1) = (unitLists xs).flatten ∧
      (∀ key, StoredFor ix.project w'.client.points key ↔
        (∃ u ∈ (unitLists xs).flatten, u.key = key) ∨
        ∃ p ∈ w.client.points, p.project? = some ix.project ∧ p.key? = some key ∧
          ∃ file ∈ report.skippedFiles.map (·.1), p.file? = some file) ∧
      (∀ key u v, lastOf ps key = some (u, v) → ∀ q,
        q ∈ w'.client.points ∧ q.key? = some key ↔ q = u.point ix.project w.now v) ∧
      (∀ q, q.project? ≠ some ix.project →
        (q ∈ w'.client.points ↔
          q ∈ w.client.points ∧ ∀ u ∈ (unitLists xs).flatten, q.key? ≠ some u.key)) ∧
      (∀ w₂ w₃ report₂, w₂.disk = w.disk → w₂.grammars = w.grammars →
        w₂.client.collection = w'.client.collection → (full ix).run w₂ = (.ok report₂, w₃) →
        report₂.success = true →
        report₂.staleRemoved = 0 ∧
        w₃.client.points.map (fun q => (q.id, q.untimed.payload)) =
          w'.client.points.map (fun q => (q.id, q.untimed.payload)) ∧
        (ix.embedder.pairs (filled (unitLists xs)) w₂.embedding = some ps →
          w₃.client.points.map Point.untimed = w'.client.points.map Point.untimed)) := by
  obtain ⟨xs, ps, h, hskipped⟩ :=
    refreshed_of_success hprune hreached.tidy hstored hfiles hinj hrun hsuccess
  have hplain : ∀ file ∈ skippedOf xs, IsPlainPath file := by
    intro file hfile
    obtain ⟨x, hx, rfl⟩ := List.mem_map.1 hfile
    exact hfiles xs h.surveyed x (List.mem_filter.1 hx).1
  refine ⟨xs, ps, h.surveyed, h.embedded, ?_, ?_, ?_, ?_, ?_⟩
  · rw [Embedder.units_pairs h.embedded, flatten_filled]
  · intro key
    rw [h.storedFor_iff hinj]
    simp only [hskipped]
  · exact fun key u v hlast q => h.holds_last hinj hlast q
  · exact fun q hq => h.mem_other hinj hq
  · intro w₂ w₃ report₂ hdisk hgrammars hcollection hrun₂ hsuccess₂
    have hends : Job.full.Ends ix w₂ (.ok ()) report₂ w₃.client.points :=
      Job.run_succeeded hrun₂ hsuccess₂
    obtain ⟨xs₂, ps₂, batches₂, deleted₂, found, pruned, hremoved, -, hpts₃⟩ := hends.of_ok
    have hsurvey : survey ix w₂ = .ok xs₂ := found.inspected
    rw [survey_congr ix hdisk hgrammars, h.surveyed] at hsurvey
    cases hsurvey
    have hpts : w₂.client.points = w'.client.points := Client.points_congr hcollection
    have hnothing := h.nothing_stale hinj hstored hplain hpts found pruned
    subst hnothing
    rw [List.map_nil, without_nil] at hpts₃
    have hone : OneFile ps₂ := found.oneFile (hfiles xs h.surveyed) hinj
      fun u hu => Or.inr ⟨xs, h.surveyed, u, hu, rfl⟩
    refine ⟨hremoved, ?_, ?_⟩
    · rw [hpts₃]
      refine h.map_again _ hone hpts found fun id u v v₂ _ _ => ?_
      rw [Prod.mk.injEq]
      exact ⟨rfl, (congrArg Point.payload (u.untimed_point ix.project w₂.now w.now v₂)).trans rfl⟩
    · intro hsame
      have hps : ps₂ = ps := Option.some.inj (found.embedded.symm.trans hsame)
      subst hps
      rw [hpts₃]
      refine h.map_again _ hone hpts found fun id u v v₂ hv hv₂ => ?_
      rw [hv] at hv₂
      cases hv₂
      exact u.untimed_point ix.project w₂.now w.now v

namespace Sample

/-- The store after `b` was indexed, and `a` when it had one function in each of three files. -/
def earlier : Client :=
  (Job.full.run (indexer "a") (lettered [("k.py", [0x67]), ("m.py", [0x66]), ("o.py", [0x68])]
    (Job.full.run (indexer "b") (lettered [] (.fresh (.text "code")))).2.client)).2.client

/-- Then `m.py` got a second function, `k.py` is no text any more and `o.py` is gone. -/
def changed : Workspace Unit := lettered [("k.py", [0xff]), ("m.py", [0x66, 0x67])] earlier

/-- A pass over the changed files. -/
def refreshing : Except Escape Report × Workspace Unit := Job.full.run (indexer "a") changed

/-- The same files once more, with the store that the pass left. -/
def unchanged : Workspace Unit := { changed with client := refreshing.2.client }

/-- The keys of the units in the changed files. -/
def current : List Text := ["m.py::m.py_f_0", "m.py::m.py_g_1"]

/-- The project, the key and the file of each point that was stored before. -/
def previous : List (Text × Text × Text) :=
  [("/b", "n.py::n.py_g_0", "n.py"), ("/a", "k.py::k.py_g_0", "k.py"),
    ("/a", "m.py::m.py_f_0", "m.py"), ("/a", "o.py::o.py_h_0", "o.py")]

theorem changed_client : changed.client = earlier := by
  rw [changed, lettered]

theorem reached_changed : Reached changed.client.collection := by
  rw [changed_client]
  exact .after .full (indexer "a") (lettered _ _)
    (.after .full (indexer "b") (lettered [] (.fresh (.text "code"))) .absent)

theorem stored_changed : changed.client.points.map (fun p => (p.project?, p.key?, p.file?)) =
    previous.map fun q => (some q.1, some q.2.1, some q.2.2) := by
  decide +kernel

theorem previous_of_mem {p : Point} (hp : p ∈ changed.client.points) :
    ∃ q ∈ previous, p.project? = some q.1 ∧ p.key? = some q.2.1 ∧ p.file? = some q.2.2 := by
  have hmem := List.mem_map_of_mem (f := fun p => (p.project?, p.key?, p.file?)) hp
  rw [stored_changed] at hmem
  obtain ⟨q, hq, heq⟩ := List.mem_map.1 hmem
  simp only [Prod.mk.injEq] at heq
  exact ⟨q, hq, heq.1.symm, heq.2.1.symm, heq.2.2.symm⟩

theorem isPlainPath_stored (p : Point) (hp : p ∈ changed.client.points) (file : Text)
    (hfile : p.file? = some file) : IsPlainPath file := by
  obtain ⟨q, hq, -, -, hq'⟩ := previous_of_mem hp
  obtain rfl : file = q.2.2 := Option.some.inj (hfile.symm.trans hq')
  have hall : ∀ q ∈ previous, IsPlainPath q.2.2 := by decide +kernel
  exact hall q hq

theorem found_changed : (survey (indexer "a") changed).toOption.map (fun xs =>
    (unitLists xs).flatten.map (·.key)) = some current ∧
    ∀ xs ∈ (survey (indexer "a") changed).toOption, ∀ x ∈ xs, IsPlainPath x.file := by
  decide +kernel

theorem injOn_changed : Set.InjOn PointId.ofKey (keysInvolved (indexer "a") changed) := by
  have hstored : changed.client.points.map Point.key? = (previous.map (·.2.1)).map some := by
    have hcolumn := congrArg (List.map fun q => q.2.1) stored_changed
    rw [List.map_map, List.map_map] at hcolumn
    rw [List.map_map]
    exact hcolumn
  have hkeys : ((previous.map (·.2.1) ++ [("m.py::m.py_g_1" : Text)]).map PointId.ofKey).Nodup := by
    decide +kernel
  have hsub : ∀ key ∈ previous.map (·.2.1) ++ current,
      key ∈ previous.map (·.2.1) ++ [("m.py::m.py_g_1" : Text)] := by decide +kernel
  exact (injOn_ofKey hkeys).mono ((keysInvolved_subset hstored found_changed.1).trans hsub)

/-- Of what was stored for `a`, only one key is of the file that is no text any more. -/
theorem kept_iff (key : Text) :
    (∃ p ∈ changed.client.points, p.project? = some ("/a" : Text) ∧ p.key? = some key ∧
      ∃ file ∈ (["k.py"] : List Text), p.file? = some file) ↔ key = "k.py::k.py_g_0" := by
  constructor
  · rintro ⟨p, hp, -, hkey, file, hskipped, hfile⟩
    obtain ⟨q, hq, -, hqkey, hqfile⟩ := previous_of_mem hp
    obtain rfl : key = q.2.1 := Option.some.inj (hkey.symm.trans hqkey)
    obtain rfl : file = q.2.2 := Option.some.inj (hfile.symm.trans hqfile)
    have hone : ∀ q ∈ previous, q.2.2 ∈ (["k.py"] : List Text) → q.2.1 = "k.py::k.py_g_0" := by
      decide +kernel
    exact hone q hq hskipped
  · rintro rfl
    have hmem : (some ("/a" : Text), some ("k.py::k.py_g_0" : Text), some ("k.py" : Text)) ∈
        changed.client.points.map (fun p => (p.project?, p.key?, p.file?)) := by
      rw [stored_changed]
      decide +kernel
    obtain ⟨p, hp, heq⟩ := List.mem_map.1 hmem
    obtain ⟨hproject, hrest⟩ := Prod.mk.inj heq
    obtain ⟨hkey, hfile⟩ := Prod.mk.inj hrest
    exact ⟨p, hp, hproject, hkey, _, List.mem_singleton_self _, hfile⟩

end Sample

/-- Of the keys of the project `a`, the one of the file that is gone is removed and the one of the
file that was skipped is kept. The second pass removes nothing. -/
theorem sample_pass_converges :
    (∃ report, Sample.refreshing.1 = .ok report ∧ report.success = true ∧
      report.skippedFiles.map (·.1) = (["k.py"] : List Text) ∧ report.staleRemoved = 1) ∧
    (∀ key, StoredFor "/a" Sample.refreshing.2.client.points key ↔
      key ∈ Sample.current ∨ key = "k.py::k.py_g_0") ∧
    ∃ report w, Job.full.run (Sample.indexer "a") Sample.unchanged = (.ok report, w) ∧
      report.success = true ∧ report.staleRemoved = 0 ∧
      w.client.points.map Point.untimed = Sample.refreshing.2.client.points.map Point.untimed := by
  have hprune : (Sample.indexer "a").pruneStale = true := rfl
  obtain ⟨hs, houtcome⟩ : succeeded Sample.refreshing.1 = true ∧
      Sample.refreshing.1.toOption.map (fun r => (r.skippedFiles.map (·.1), r.staleRemoved)) =
        some ((["k.py"] : List Text), 1) := by decide +kernel
  obtain ⟨report, hrun, hsuccess⟩ := Job.exists_report hs
  have hplain : ∀ xs, survey (Sample.indexer "a") Sample.changed = .ok xs →
      ∀ x ∈ xs, IsPlainPath x.file := fun xs h =>
    Sample.found_changed.2 xs (by rw [h]; rfl)
  obtain ⟨xs, ps, hxs, hps, -, hiff, -, -, hagain⟩ :=
    full_pass_converges hprune Sample.reached_changed Sample.isPlainPath_stored
      hplain Sample.injOn_changed hrun hsuccess
  have hs₂ : succeeded (Job.full.run (Sample.indexer "a") Sample.unchanged).1 = true := by
    decide +kernel
  obtain ⟨report₂, hrun₂, hsuccess₂⟩ := Job.exists_report hs₂
  obtain ⟨hstale, -, hsame⟩ := hagain Sample.unchanged _ report₂ rfl rfl rfl hrun₂ hsuccess₂
  have hreport : Sample.refreshing.1 = .ok report := congrArg Prod.fst hrun
  rw [hreport] at houtcome
  obtain ⟨hskipped, hremoved⟩ := Prod.mk.inj (Option.some.inj houtcome)
  refine ⟨⟨report, hreport, hsuccess, hskipped, hremoved⟩, fun key => ?_,
    report₂, _, hrun₂, hsuccess₂, hstale, hsame hps⟩
  have hproject : (Sample.indexer "a").project = "/a" := by decide +kernel
  have hkeys : (unitLists xs).flatten.map (·.key) = Sample.current := by
    have hfound := Sample.found_changed.1
    rw [hxs] at hfound
    exact Option.some.inj hfound
  have hiff := hiff key
  rw [hproject, hskipped, Sample.kept_iff, ← List.mem_map, hkeys] at hiff
  exact hiff

end CodeAtlas.Pass
