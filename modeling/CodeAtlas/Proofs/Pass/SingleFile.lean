import CodeAtlas.Proofs.Pass.Convergence
import CodeAtlas.Proofs.Pass.Isolation

/-!
# Jobs on one file

A job that covers one file (`job.file? ix w = some rel`) writes and deletes points of that file only.
A point of another file has another key, hence another id, so it is neither replaced nor deleted:

    q.file? ≠ some rel → (q ∈ points after ↔ q ∈ points before)       (Job.Ends.mem_other_file)

A job that is done and prunes leaves the units of the file that it just found, and none if the file
was removed. The number it reports is that of the ids that are gone (`staleRemoved_eq`).
-/

namespace CodeAtlas.Pass

open Collection VectorIndex

variable {σ : Type}

/-! ## What a job has to do with -/

/-- The keys that a job has to do with: those that are stored and those of the units found. -/
def Job.keysInvolved (job : Job) (ix : Indexer σ) (w : Workspace σ) : Set Text :=
  { key | (∃ p ∈ w.client.points, p.key? = some key) ∨
    ∃ xs, job.inspected ix w = .ok xs ∧ ∃ u ∈ (unitLists xs).flatten, u.key = key }

section
variable {job : Job} {ix : Indexer σ} {w : Workspace σ} {rel : Text}

/-- Every unit that gets a vector was found. -/
theorem Job.exists_of_mem_newPairs {p : CodeUnit × Embedding} (hp : p ∈ job.newPairs ix w) :
    ∃ xs, job.inspected ix w = .ok xs ∧ p.1 ∈ (unitLists xs).flatten := by
  unfold Job.newPairs at hp
  cases hxs : job.inspected ix w with
  | error f => rw [hxs] at hp; cases hp
  | ok xs =>
    rw [hxs] at hp
    dsimp only at hp
    cases hps : ix.embedder.pairs (job.lists xs) w.embedding with
    | none => rw [hps] at hp; cases hp
    | some ps =>
      rw [hps, Option.getD_some] at hp
      have hmem : p.1 ∈ (job.lists xs).flatten := by
        rw [← Embedder.units_pairs hps]
        exact List.mem_map_of_mem hp
      refine ⟨xs, rfl, ?_⟩
      cases job with
      | full => exact flatten_filled _ ▸ hmem
      | file path => exact hmem
      | remove path => exact hmem

theorem Job.key_mem_keysInvolved {p : CodeUnit × Embedding} (hp : p ∈ job.newPairs ix w) :
    p.1.key ∈ job.keysInvolved ix w := by
  obtain ⟨xs, hxs, hu⟩ := Job.exists_of_mem_newPairs hp
  exact Or.inr ⟨xs, hxs, p.1, hu, rfl⟩

theorem Job.relative_of_file? {path : SourcePath} (hpath : job = .file path ∨ job = .remove path)
    (hjob : job.file? ix w = some rel) : ix.relative w.disk (ix.absolute path) = .ok rel := by
  have hfile : (ix.relative w.disk (ix.absolute path)).toOption = some rel := by
    rcases hpath with rfl | rfl <;> exact hjob
  cases hr : ix.relative w.disk (ix.absolute path) with
  | error e => rw [hr] at hfile; cases hfile
  | ok file => rw [hr] at hfile; cases hfile; rfl

/-- What the file at a path gives carries the path as seen from the project. -/
theorem file_of_inspectOne {path : SourcePath} {xs : List Extracted}
    (hrel : ix.relative w.disk path = .ok rel) (h : inspectOne ix w path = .ok xs) {x : Extracted}
    (hx : x ∈ xs) : extractFile ix w path rel = .ok x := by
  obtain ⟨file, hfile, rfl | ⟨y, rfl, hy⟩⟩ := inspectOne_ok h
  · cases hx
  · rw [hrel] at hfile
    cases hfile
    rw [List.mem_singleton.1 hx, hy]

/-- The units that a job on one file finds are of that file. -/
theorem Job.filePath_of_file (hjob : job.file? ix w = some rel) {xs : List Extracted}
    (hxs : job.inspected ix w = .ok xs) {u : CodeUnit} (hu : u ∈ (unitLists xs).flatten) :
    u.filePath = rel := by
  cases job with
  | full => cases hjob
  | remove path =>
    cases hxs
    cases hu
  | file path =>
    have hrel := Job.relative_of_file? (Or.inl rfl) hjob
    obtain ⟨units, hunits, hu⟩ := List.mem_flatten.1 hu
    obtain ⟨x, hx, hxu⟩ := List.mem_filterMap.1 hunits
    obtain ⟨-, hpath⟩ := extractFile_ok (file_of_inspectOne hrel hxs hx)
    cases hxunits : x.units with
    | error reason => rw [hxunits] at hxu; cases hxu
    | ok found =>
      rw [hxunits] at hxu
      cases hxu
      exact hpath units hxunits u hu

theorem Job.filePath_of_mem_newPairs (hjob : job.file? ix w = some rel) {p : CodeUnit × Embedding}
    (hp : p ∈ job.newPairs ix w) : p.1.filePath = rel := by
  obtain ⟨xs, hxs, hu⟩ := Job.exists_of_mem_newPairs hp
  exact Job.filePath_of_file hjob hxs hu

/-- A job on one file lists the points of that file. -/
theorem Job.lists_file (hjob : job.file? ix w = some rel) {points : List Point} (tidy : Tidy points)
    {q : Point} (hq : q ∈ points) : job.Lists ix w q ↔ q.file? = some rel := by
  obtain ⟨project, now, u, v, rfl⟩ := tidy.units q hq
  have hfile := CodeUnit.point_file? project now u v
  have hfull : job ≠ .full := by
    rintro rfl
    cases hjob
  rw [Job.lists_iff, hjob, hfile]
  simp only [hfull, false_and, false_or, Option.some.injEq, exists_eq_left']
  exact Point.holds_iff hfile rel

end

/-! ## Other files -/

section
variable {job : Job} {ix : Indexer σ} {w : Workspace σ} {rel : Text}
  {answer : Except PassFailure Unit} {report : Report} {points : List Point}

/-- A point that is stored after a job was stored before or is of a unit that the job found. -/
theorem Job.Ends.mem_cases (h : job.Ends ix w answer report points) {q : Point} (hq : q ∈ points) :
    q ∈ w.client.points ∨
      ∃ p ∈ job.newPairs ix w, q = p.1.point ix.project w.now p.2 := by
  have hnew : ∀ {items : List IndexItem}, (∀ item ∈ items, item ∈ job.newItems ix w) →
      q ∈ overlay w.client.points (items.map pointOf) →
      q ∈ w.client.points ∨ ∃ p ∈ job.newPairs ix w, q = p.1.point ix.project w.now p.2 := by
    intro items hitems hq
    rcases mem_overlay hq with hnew | hold
    · obtain ⟨item, hitem, rfl⟩ := List.mem_map.1 hnew
      obtain ⟨p, hp, rfl⟩ := List.mem_map.1 (hitems item hitem)
      exact Or.inr ⟨p, hp, rfl⟩
    · exact Or.inl hold
  cases h with
  | early => exact Or.inl hq
  | late found n =>
    exact hnew (fun item hi => found.newItems_eq ▸ Batch.mem_take_batches found.batched hi) hq
  | done found =>
    exact hnew (fun item hi => found.newItems_eq ▸ (Batch.mem_batches found.batched).1 hi)
      (mem_without.1 hq).1

/-- However a job on one file ends, the points of other files are as before. -/
theorem Job.Ends.mem_other_file (h : job.Ends ix w answer report points)
    (hjob : job.file? ix w = some rel) (tidy : Tidy w.client.points) (hrel : IsPlainPath rel)
    (hstored : ∀ p ∈ w.client.points, ∀ file, p.file? = some file → IsPlainPath file)
    (hinj : Set.InjOn PointId.ofKey (job.keysInvolved ix w)) {q : Point}
    (hq : q.file? ≠ some rel) : q ∈ points ↔ q ∈ w.client.points := by
  constructor
  · intro hafter
    rcases h.mem_cases hafter with hold | ⟨p, hp, rfl⟩
    · exact hold
    · rw [CodeUnit.point_file?, Job.filePath_of_mem_newPairs hjob hp] at hq
      exact absurd rfl hq
  · intro hold
    obtain ⟨project, now, u, v, hu⟩ := tidy.units q hold
    have hfile : q.file? = some u.filePath := by rw [hu, CodeUnit.point_file?]
    have hkey : q.key? = some u.key := by rw [hu, CodeUnit.point_key?]
    have hid : q.id = PointId.ofKey u.key := by rw [hu, CodeUnit.point_id]
    obtain ⟨batches, n, deleted, hb, hpts, -, -, hlisted⟩ := h.exists_written
    rw [hpts]
    refine mem_of_untouched hold ?_ ?_
    · -- an id of the file's units is not that of another file's key
      intro item hitem hsame
      obtain ⟨p, hp, rfl⟩ := List.mem_map.1 (Batch.mem_take_batches hb hitem)
      have hpk : p.1.key = u.key :=
        hinj (Job.key_mem_keysInvolved hp) (Or.inl ⟨q, hold, hkey⟩) (hsame.trans hid)
      have hpf := Job.filePath_of_mem_newPairs hjob hp
      have heq : p.1.filePath = u.filePath :=
        CodeUnit.filePath_eq_of_key_eq (hpf ▸ hrel) (hstored q hold _ hfile) hpk
      exact hq (by rw [hfile, ← heq, hpf])
    · intro key hdeleted hsame
      obtain ⟨r, hr, hlists, hk⟩ := hlisted key hdeleted
      have hrq : r = q := eq_of_id_eq tidy.distinct hr hold ((tidy.id_eq hr hk).trans hsame)
      subst hrq
      exact hq ((Job.lists_file hjob tidy hr).1 hlists)

/-! ## The file itself -/

variable {xs : List Extracted} {ps : List (CodeUnit × Embedding)} {batches : List (List IndexItem)}
  {deleted : List Text}

/-- The points after a job on one file that prunes: of the file's, only those just written. -/
theorem mem_single (found : job.Found ix w xs ps batches)
    (pruned : job.Pruned ix w xs (ps.map (itemOf ix.project w.now))
      (overlay w.client.points (batches.flatten.map pointOf)) deleted)
    (hjob : job.file? ix w = some rel) (hprunes : job.prunes ix xs = true)
    (tidy : Tidy w.client.points) (q : Point) :
    q ∈ without (overlay w.client.points (batches.flatten.map pointOf))
        (deleted.map PointId.ofKey) ↔
      (∃ p, latest ps q.id = some p ∧ q = p.1.point ix.project w.now p.2) ∨
      (latest ps q.id = none ∧ q ∈ w.client.points ∧ q.file? ≠ some rel) := by
  have hfile : ∀ p ∈ ps, p.1.filePath = rel := by
    intro p hp
    exact Job.filePath_of_mem_newPairs hjob (found.newPairs_eq.symm ▸ hp)
  have hone : OneFile ps := by
    intro p hp r hr _
    rw [hfile p hp, hfile r hr]
  have hspares : ∀ key, job.spares xs key = false := by
    intro key
    cases job with
    | full => cases hjob
    | file path => rfl
    | remove path => rfl
  rw [Job.mem_done found pruned tidy hone]
  refine or_congr_right (and_congr_right fun _ => and_congr_right fun hq => ?_)
  rw [Job.lists_file hjob tidy hq]
  simp [hprunes, hspares]

/-- The keys that are stored for the file after a job on it that prunes are those of the units it
found. -/
theorem storedFor_single (found : job.Found ix w xs ps batches)
    (pruned : job.Pruned ix w xs (ps.map (itemOf ix.project w.now))
      (overlay w.client.points (batches.flatten.map pointOf)) deleted)
    (hjob : job.file? ix w = some rel) (hprunes : job.prunes ix xs = true)
    (tidy : Tidy w.client.points) (hinj : Set.InjOn PointId.ofKey (job.keysInvolved ix w))
    (key : Text) :
    (∃ q ∈ without (overlay w.client.points (batches.flatten.map pointOf))
        (deleted.map PointId.ofKey), q.file? = some rel ∧ q.key? = some key) ↔
      ∃ p ∈ ps, p.1.key = key := by
  have hmem := mem_single found pruned hjob hprunes tidy
  constructor
  · rintro ⟨q, hq, hfile, hkey⟩
    rcases (hmem q).1 hq with ⟨p, hp, rfl⟩ | ⟨-, -, hother⟩
    · rw [CodeUnit.point_key?, Option.some.injEq] at hkey
      exact ⟨p, (latest_eq_some hp).1, hkey⟩
    · exact absurd hfile hother
  · rintro ⟨p, hp, rfl⟩
    have hnew : ∀ p ∈ ps, p ∈ job.newPairs ix w := fun p hp => found.newPairs_eq.symm ▸ hp
    cases hl : latest ps (PointId.ofKey p.1.key) with
    | none => exact absurd rfl (latest_eq_none_iff.1 hl p hp)
    | some last =>
      obtain ⟨hlast, hid⟩ := latest_eq_some hl
      have hkey : last.1.key = p.1.key :=
        hinj (Job.key_mem_keysInvolved (hnew last hlast)) (Job.key_mem_keysInvolved (hnew p hp)) hid
      refine ⟨last.1.point ix.project w.now last.2, (hmem _).2 (Or.inl ⟨last, ?_, rfl⟩), ?_, ?_⟩
      · rw [CodeUnit.point_id, hid]
        exact hl
      · rw [CodeUnit.point_file?, Job.filePath_of_mem_newPairs hjob (hnew last hlast)]
      · rw [CodeUnit.point_key?, hkey]

/-! ## Counting -/

theorem Job.Pruned.nodup {items : List IndexItem} (h : job.Pruned ix w xs items points deleted)
    (hd : DistinctIds points) : deleted.Nodup := by
  cases h with
  | kept => exact List.nodup_nil
  | pruned _ _ hl => exact ((hl.nodup hd).filter _).filter _

/-- Whether an id was taken away. -/
def Gone (after : List Point) (p : Point) : Prop := ∀ q ∈ after, q.id ≠ p.id

instance (after : List Point) : DecidablePred (Gone after) :=
  fun p => inferInstanceAs (Decidable (∀ q ∈ after, q.id ≠ p.id))

/-- A job that is done reports how many ids it took away. -/
theorem Job.Ends.staleRemoved_eq (h : job.Ends ix w (.ok ()) report points)
    (tidy : Tidy w.client.points) (hinj : Set.InjOn PointId.ofKey (job.keysInvolved ix w)) :
    report.staleRemoved = (w.client.points.filter (Gone points)).length := by
  obtain ⟨xs, ps, batches, deleted, found, pruned, hremoved, -, rfl⟩ := h.of_ok
  have hold : ∀ key ∈ deleted, ∃ q ∈ w.client.points, q.key? = some key ∧ q.id = PointId.ofKey key := by
    intro key hkey
    obtain ⟨q, hq, -, hk⟩ :=
      pruned.exists_old (fun item hi => (Batch.mem_batches found.batched).1 hi) hkey
    exact ⟨q, hq, (tidy.keyOf_eq hq).1 hk, tidy.id_eq hq hk⟩
  have hids : (deleted.map PointId.ofKey).Nodup := by
    refine (pruned.nodup (distinctIds_overlay tidy.distinct _)).map_on fun a ha b hb hab => ?_
    obtain ⟨p, hp, hpk, -⟩ := hold a ha
    obtain ⟨q, hq, hqk, -⟩ := hold b hb
    exact hinj (Or.inl ⟨p, hp, hpk⟩) (Or.inl ⟨q, hq, hqk⟩) hab
  have hgone : ((w.client.points.filter (Gone (without
      (overlay w.client.points (batches.flatten.map pointOf))
      (deleted.map PointId.ofKey)))).map (·.id)).Nodup :=
    tidy.distinct.sublist (List.filter_sublist.map _)
  have hperm := (List.perm_ext_iff_of_nodup hids hgone).2 fun id => ?_
  · have hlen := hperm.length_eq
    rw [List.length_map, List.length_map] at hlen
    rw [hremoved, hlen]
  · simp only [List.mem_map, List.mem_filter, decide_eq_true_eq]
    constructor
    · rintro ⟨key, hkey, rfl⟩
      obtain ⟨q, hq, -, hid⟩ := hold key hkey
      refine ⟨q, ⟨hq, fun r hr hsame => ?_⟩, hid⟩
      refine (mem_without.1 hr).2 ?_
      rw [hsame, hid]
      exact List.mem_map_of_mem hkey
    · rintro ⟨q, ⟨hq, hgone⟩, rfl⟩
      obtain ⟨r, hr, hid⟩ := exists_id_overlay hq (batches.flatten.map pointOf)
      by_contra hkept
      refine hgone r (mem_without.2 ⟨hr, fun hdel => hkept ?_⟩) hid
      rw [hid] at hdel
      exact List.mem_map.1 hdel

end

/-! ## Results -/

/-- A pass over a file that neither fails nor skips it has extracted its units. -/
theorem extracted_of_not_skipped {ix : Indexer σ} {w w' : Workspace σ} {path : SourcePath}
    {rel : Text} {report : Report} (hrel : ix.relative w.disk (ix.absolute path) = .ok rel)
    (h : exec (fileSteps ix path) (.start ix.project .file) w = ((.ok (), report), w'))
    (hs : report.skipped = false) :
    ∃ units, extractFile ix w (ix.absolute path) rel = .ok ⟨rel, .ok units⟩ ∧
      inspectOne ix w (ix.absolute path) = .ok [⟨rel, .ok units⟩] := by
  unfold fileSteps at h
  rw [exec_bind, exec_locate, hrel] at h
  dsimp only [Except.mapError] at h
  rw [exec_bind, exec_isSource] at h
  unfold inspectOne
  rw [hrel]
  dsimp only
  by_cases hlang : (Language.ofFile? (ix.absolute path).name).isSome = true
  · rw [if_pos hlang] at h ⊢
    cases hfile : w.disk.isFile (ix.absolute path).parts with
    | error e => rw [hfile] at h; cases h
    | ok present =>
      rw [hfile] at h
      cases present with
      | false => cases h; cases hs
      | true =>
        dsimp only [Except.mapError] at h ⊢
        rw [if_pos rfl, exec_bind, exec_note] at h
        dsimp only at h
        rw [exec_bind, exec_extractOne] at h
        cases hx : extractFile ix w (ix.absolute path) rel with
        | error f => rw [hx] at h; cases h
        | ok x =>
          rw [hx] at h
          obtain ⟨file, units⟩ := x
          obtain ⟨rfl, -⟩ := extractFile_ok hx
          cases units with
          | error reason => cases h; cases hs
          | ok units => exact ⟨units, rfl, rfl⟩
  · rw [if_neg hlang] at h
    cases h
    cases hs

/-- A job on one file leaves the points of other files as they are, however it ends. If it succeeds,
it leaves of the file what it extracted, nothing when it removes the file, and it reports how many
points it deleted. -/
theorem single_file_effect {job : Job} {ix : Indexer σ} {w w' : Workspace σ} {rel : Text}
    {result : Except Escape Report} (hreached : Reached w.client.collection)
    (hjob : job.file? ix w = some rel) (hrel : IsPlainPath rel)
    (hstored : ∀ p ∈ w.client.points, ∀ file, p.file? = some file → IsPlainPath file)
    (hinj : Set.InjOn PointId.ofKey (job.keysInvolved ix w))
    (hrun : job.run ix w = (result, w')) :
    (∀ q : Point, q.file? ≠ some rel → (q ∈ w'.client.points ↔ q ∈ w.client.points)) ∧
      ∀ report, result = .ok report → report.success = true →
        report.staleRemoved = (w.client.points.filter (Gone w'.client.points)).length ∧
        (∀ path, job = .file path → report.skipped = false → ix.pruneStale = true →
          ∃ units, extractFile ix w (ix.absolute path) rel = .ok ⟨rel, .ok units⟩ ∧
            ∀ key, (∃ q ∈ w'.client.points, q.file? = some rel ∧ q.key? = some key) ↔
              ∃ u ∈ units, u.key = key) ∧
        (∀ path, job = .remove path → ∀ q ∈ w'.client.points, q.file? ≠ some rel) := by
  have tidy : Tidy w.client.points := hreached.tidy
  constructor
  · intro q hq
    obtain ⟨answer, report, hends, -⟩ := Job.run_cases hrun
    exact hends.mem_other_file hjob tidy hrel hstored hinj hq
  · rintro report rfl hsuccess
    have hends := Job.run_succeeded hrun hsuccess
    obtain ⟨xs, ps, batches, deleted, found, pruned, -, -, hpts⟩ := hends.of_ok
    refine ⟨hends.staleRemoved_eq tidy hinj, ?_, ?_⟩
    · rintro path rfl hskipped hprune
      obtain ⟨answer, r, w₁, hexec, -, ⟨rfl, hr⟩ | ⟨f, rfl, hr⟩⟩ :=
        Job.run_outcome (fun _ => rfl) (show (Pass.file ix path).run w = _ from hrun)
      · cases hr
        obtain ⟨units, hunits, hinspected⟩ := extracted_of_not_skipped
          (Job.relative_of_file? (Or.inl rfl) hjob) hexec hskipped
        have hxs : xs = [⟨rel, .ok units⟩] :=
          Except.ok.inj (found.inspected.symm.trans hinspected)
        subst hxs
        have hps : ps.map (·.1) = units := by
          rw [Embedder.units_pairs found.embedded]
          simp [Job.lists, unitLists, Except.toOption]
        have hprunes : (Job.file path).prunes ix [⟨rel, .ok units⟩] = true := by
          simp [Job.prunes, hprune, Except.toOption]
        refine ⟨units, hunits, fun key => ?_⟩
        rw [hpts, storedFor_single found pruned hjob hprunes tidy hinj, ← hps]
        simp
      · have hfail : succeeded (f.result r) = true := hr ▸ hsuccess
        rw [succeeded_result] at hfail
        cases hfail
    · rintro path rfl q hq hfile
      have hnone : ps = [] := Option.some.inj (found.embedded.symm.trans
        (by cases found.inspected; rfl))
      subst hnone
      rw [hpts] at hq
      rcases (mem_single found pruned hjob rfl tidy q).1 hq with ⟨p, hp, -⟩ | ⟨-, -, hother⟩
      · cases (latest_eq_some hp).1
      · exact hother hfile

/-- The keys of the units of both projects. -/
def Sample.bothKeys : List Text :=
  ["n.py::n.py_unknown_python_func_0", "m.py::m.py_unknown_python_func_0"]

/-- With both projects indexed, removing the file of `a` deletes its one point and keeps the other. -/
theorem remove_keeps_other_file :
    let w := (Job.full.run (Sample.indexer "a") Sample.indexed).2
    let w' := ((Job.remove (Sample.path "m.py")).run (Sample.indexer "a") w).2
    w.client.points.length = 2 ∧ (w.client.points.filter (Gone w'.client.points)).length = 1 ∧
      (∀ q : Point, q.file? ≠ some ("m.py" : Text) →
        (q ∈ w'.client.points ↔ q ∈ w.client.points)) ∧
      ∀ q ∈ w'.client.points, q.file? ≠ some ("m.py" : Text) := by
  intro w w'
  -- all that has to be computed, at once
  obtain ⟨hkeys, hdiffer, hfiles, hjob, hs, hgoneOne⟩ :
      w.client.points.map Point.key? = Sample.bothKeys.map some ∧
      (Sample.bothKeys.map PointId.ofKey).Nodup ∧
      w.client.points.map Point.file? = (["n.py", "m.py"] : List Text).map some ∧
      (Job.remove (Sample.path "m.py")).file? (Sample.indexer "a") w = some ("m.py" : Text) ∧
      succeeded ((Job.remove (Sample.path "m.py")).run (Sample.indexer "a") w).1 = true ∧
      (w.client.points.filter (Gone w'.client.points)).length = 1 := by
    decide +kernel
  have hreached : Reached w.client.collection :=
    .after .full (Sample.indexer "a") Sample.indexed
      (.after .full (Sample.indexer "b") (Sample.workspace (.fresh (.text "code"))) .absent)
  have hplain : ∀ p ∈ w.client.points, ∀ file, p.file? = some file → IsPlainPath file := by
    intro p hp file hf
    have hmem := List.mem_map_of_mem (f := Point.file?) hp
    rw [hfiles, hf] at hmem
    obtain ⟨_, hname, ⟨⟩⟩ := List.mem_map.1 hmem
    have hall : ∀ name ∈ (["n.py", "m.py"] : List Text), IsPlainPath name := by decide
    exact hall file hname
  have hinj : Set.InjOn PointId.ofKey
      ((Job.remove (Sample.path "m.py")).keysInvolved (Sample.indexer "a") w) := by
    refine (injOn_ofKey hdiffer).mono ?_
    rintro key (⟨p, hp, hk⟩ | ⟨xs, hxs, u, hu, -⟩)
    · have hmem := List.mem_map_of_mem (f := Point.key?) hp
      rw [hkeys, hk] at hmem
      obtain ⟨_, hkey, ⟨⟩⟩ := List.mem_map.1 hmem
      exact hkey
    · cases hxs
      cases hu
  obtain ⟨report, hrun, hsuccess⟩ := Job.exists_report hs
  obtain ⟨hother, hrest⟩ := single_file_effect hreached hjob (by decide) hplain hinj hrun
  obtain ⟨-, -, hgone⟩ := hrest report rfl hsuccess
  refine ⟨?_, hgoneOne, hother, hgone _ rfl⟩
  have hlen := congrArg List.length hkeys
  rwa [List.length_map] at hlen

end CodeAtlas.Pass
