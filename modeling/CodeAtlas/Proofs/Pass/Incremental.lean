import CodeAtlas.Proofs.Pass.Convergence
import CodeAtlas.Proofs.Pass.Edit

/-!
# A pass over one file agrees with a full pass

After a full pass, one file is given new content. Whether the pass over this file or a full pass
comes next makes no difference to the points but for their times (`file_pass_agrees`), provided that
the embedder's answer depends on the texts of a call only (`Embedder.IsFunction`).

What is written last under an id comes from one file (`latest_flatMap`), so that both passes can be
told file by file (`Upkeep`): they write the same for the edited file, and what the full pass writes
for the others is stored already.
-/

namespace CodeAtlas

open Collection VectorIndex

variable {σ : Type}

namespace Embedder

/-- Whether the answer to a call depends on its texts only. -/
def IsFunction (e : Embedder σ) : Prop :=
  ∀ texts s s', ((e.embed texts).run s).1 = ((e.embed texts).run s').1

/-- Units with the vectors of one call, none if it fails. -/
def paired (e : Embedder σ) (s : σ) (units : List CodeUnit) : List (CodeUnit × Embedding) :=
  match (e.ask units s).1 with
  | .ok vectors => units.zip vectors
  | .error _ => []

theorem fst_mem_of_mem_paired {e : Embedder σ} {s : σ} {units : List CodeUnit}
    {p : CodeUnit × Embedding} (h : p ∈ e.paired s units) : p.1 ∈ units := by
  unfold paired at h
  split at h
  · exact (List.of_mem_zip h).1
  · cases h

@[simp] theorem paired_nil (e : Embedder σ) (s : σ) : e.paired s [] = [] := by
  unfold paired
  split <;> rfl

/-- Calls one after another give what each of them would give at any time. -/
theorem pairs_eq {e : Embedder σ} (he : e.IsFunction) {lists : List (List CodeUnit)} {s : σ}
    {ps : List (CodeUnit × Embedding)} (h : e.pairs lists s = some ps) (s₀ : σ) :
    ps = lists.flatMap (e.paired s₀) := by
  induction lists generalizing s ps with
  | nil =>
    cases h
    rfl
  | cons units rest ih =>
    unfold pairs at h
    split at h
    · next vectors hv =>
      split at h
      · obtain ⟨more, hm, rfl⟩ := Option.map_eq_some_iff.1 h
        have hv₀ : (e.ask units s₀).1 = .ok vectors := (he _ s₀ s).trans hv
        rw [List.flatMap_cons, ← ih hm, paired, hv₀]
      · cases h
    · cases h

end Embedder

namespace Pass

/-! ## File by file -/

theorem latest_append (ps qs : List (CodeUnit × Embedding)) (id : PointId) :
    latest (ps ++ qs) id = (latest qs id).or (latest ps id) := by
  rw [latest, List.reverse_append, List.find?_append]
  rfl

/-- Where no two sources share an id, the latest pair of all is the latest of one of them. -/
theorem latest_flatMap {α : Type} {sources : List α} {f : α → List (CodeUnit × Embedding)}
    (hsame : ∀ a ∈ sources, ∀ b ∈ sources, ∀ p ∈ f a, ∀ q ∈ f b,
      PointId.ofKey p.1.key = PointId.ofKey q.1.key → a = b)
    {id : PointId} {p : CodeUnit × Embedding} :
    latest (sources.flatMap f) id = some p ↔ ∃ a ∈ sources, latest (f a) id = some p := by
  induction sources generalizing p with
  | nil => simp [latest]
  | cons a rest ih =>
    have ih := @ih fun b hb c hc =>
      hsame b (List.mem_cons_of_mem _ hb) c (List.mem_cons_of_mem _ hc)
    rw [List.flatMap_cons, latest_append]
    cases hrest : latest (rest.flatMap f) id with
    | none =>
      rw [Option.none_or]
      constructor
      · exact fun hp => ⟨a, List.mem_cons_self, hp⟩
      · rintro ⟨b, hb, hp⟩
        rcases List.mem_cons.1 hb with rfl | hb
        · exact hp
        · rw [ih.2 ⟨b, hb, hp⟩] at hrest
          cases hrest
    | some q =>
      obtain ⟨c, hc, hq⟩ := ih.1 hrest
      rw [Option.some_or, Option.some.injEq]
      constructor
      · rintro rfl
        exact ⟨c, List.mem_cons_of_mem _ hc, hq⟩
      · rintro ⟨b, hb, hp⟩
        obtain ⟨hpb, hpid⟩ := latest_eq_some hp
        obtain ⟨hqc, hqid⟩ := latest_eq_some hq
        have hbc := hsame b hb c (List.mem_cons_of_mem _ hc) p hpb q hqc (hpid.trans hqid.symm)
        rw [hbc, hq, Option.some.injEq] at hp
        exact hp

/-- What a pass writes for a file, by what the file gives. -/
def written (ix : Indexer σ) (s : σ) (x : Extracted) : List (CodeUnit × Embedding) :=
  match x.units with
  | .ok units => ix.embedder.paired s units
  | .error _ => []

theorem flatMap_unitLists (ix : Indexer σ) (s : σ) (xs : List Extracted) :
    (unitLists xs).flatMap (ix.embedder.paired s) = xs.flatMap (written ix s) := by
  induction xs with
  | nil => rfl
  | cons x xs ih =>
    rw [List.flatMap_cons, ← ih, written, unitLists, unitLists]
    cases hx : x.units with
    | error reason => simp [hx, Except.toOption]
    | ok units => simp [hx, Except.toOption]

theorem flatMap_filled (ix : Indexer σ) (s : σ) (lists : List (List CodeUnit)) :
    (filled lists).flatMap (ix.embedder.paired s) = lists.flatMap (ix.embedder.paired s) := by
  induction lists with
  | nil => rfl
  | cons units rest ih =>
    rw [List.flatMap_cons, ← ih]
    cases units with
    | nil => simp [filled]
    | cons u us => simp [filled]

/-- What a job writes is what it writes for each file. -/
theorem pairs_lists {ix : Indexer σ} (he : ix.embedder.IsFunction) (job : Job)
    {xs : List Extracted} {s : σ} {ps : List (CodeUnit × Embedding)}
    (h : ix.embedder.pairs (job.lists xs) s = some ps) (s₀ : σ) : ps = xs.flatMap (written ix s₀) := by
  rw [← flatMap_unitLists, Embedder.pairs_eq he h s₀]
  cases job with
  | full => exact flatMap_filled ix s₀ _
  | file path => rfl
  | remove path => rfl

/-! ## Two ways to keep up -/

theorem Edited.once_after {xs xs' : List Extracted} {x : Extracted} (h : Edited xs xs' x) :
    ∀ y ∈ xs', ∀ z ∈ xs', y.file = z.file → y = z := by
  intro y hy z hz hyz
  by_cases hx : y.file = x.file
  · rw [h.only y hy hx, h.only z hz (hyz ▸ hx)]
  · have hzx : z.file ≠ x.file := hyz ▸ hx
    exact h.once y ((h.others y hx).1 hy) z ((h.others z hzx).1 hz) hyz

/-- A file is skipped if the survey says so for the one entry it has. -/
theorem Edited.skipped_iff {xs xs' : List Extracted} {x : Extracted} (h : Edited xs xs' x) :
    x.file ∈ skippedOf xs' ↔ x.units.toOption = none := by
  unfold skippedOf
  rw [List.mem_map]
  constructor
  · rintro ⟨y, hy, hyx⟩
    obtain ⟨hmem, hnone⟩ := List.mem_filter.1 hy
    rw [← h.only y hmem hyx]
    simpa using hnone
  · intro hnone
    exact ⟨x, List.mem_filter.2 ⟨h.new, by simp [hnone]⟩, rfl⟩

/-- A store that is up to date with the survey `xs`, and what is left of it by the pass over the
file that gives `x`, and by a full pass that surveys `xs'`; `f` is what is written for a file. -/
structure Upkeep (f : Extracted → List (CodeUnit × Embedding)) (project : Text)
    (now now₁ now₂ : Text) (xs xs' : List Extracted) (x : Extracted)
    (stored one all : List Point) : Prop where
  edited : Edited xs xs' x
  files : ∀ y ∈ xs ++ xs', ∀ p ∈ f y, p.1.filePath = y.file
  ids : ∀ y ∈ xs ++ xs', ∀ z ∈ xs ++ xs', ∀ p ∈ f y, ∀ q ∈ f z,
    PointId.ofKey p.1.key = PointId.ofKey q.1.key → y.file = z.file
  skipped : ∀ y, y.units.toOption = none → f y = []
  mem_stored : ∀ q, q ∈ stored ↔
    ∃ p, latest (xs.flatMap f) q.id = some p ∧ q = p.1.point project now p.2
  mem_one : ∀ q, q ∈ one ↔
    (∃ p, latest (f x) q.id = some p ∧ q = p.1.point project now₁ p.2) ∨
    (latest (f x) q.id = none ∧ q ∈ stored ∧
      (x.units.toOption ≠ none → q.file? ≠ some x.file))
  mem_all : ∀ q, q ∈ all ↔
    (∃ p, latest (xs'.flatMap f) q.id = some p ∧ q = p.1.point project now₂ p.2) ∨
    (latest (xs'.flatMap f) q.id = none ∧ q ∈ stored ∧
      ∃ file ∈ skippedOf xs', q.file? = some file)

namespace Upkeep

variable {f : Extracted → List (CodeUnit × Embedding)} {project now now₁ now₂ : Text}
  {xs xs' : List Extracted} {x : Extracted} {stored one all : List Point}

theorem latest_before (h : Upkeep f project now now₁ now₂ xs xs' x stored one all) {id : PointId}
    {p : CodeUnit × Embedding} :
    latest (xs.flatMap f) id = some p ↔ ∃ y ∈ xs, latest (f y) id = some p := by
  refine latest_flatMap fun y hy z hz p hp q hq hid => h.edited.once y hy z hz ?_
  exact h.ids y (List.mem_append_left _ hy) z (List.mem_append_left _ hz) p hp q hq hid

theorem latest_after (h : Upkeep f project now now₁ now₂ xs xs' x stored one all) {id : PointId}
    {p : CodeUnit × Embedding} :
    latest (xs'.flatMap f) id = some p ↔ ∃ y ∈ xs', latest (f y) id = some p := by
  refine latest_flatMap fun y hy z hz p hp q hq hid => h.edited.once_after y hy z hz ?_
  exact h.ids y (List.mem_append_right _ hy) z (List.mem_append_right _ hz) p hp q hq hid

/-- Files that share an id are one file. -/
theorem file_eq (h : Upkeep f project now now₁ now₂ xs xs' x stored one all) {y z : Extracted}
    (hy : y ∈ xs ++ xs') (hz : z ∈ xs ++ xs') {id : PointId} {p q : CodeUnit × Embedding}
    (hp : latest (f y) id = some p) (hq : latest (f z) id = some q) : y.file = z.file := by
  obtain ⟨hpy, hpid⟩ := latest_eq_some hp
  obtain ⟨hqz, hqid⟩ := latest_eq_some hq
  exact h.ids y hy z hz p hpy q hqz (hpid.trans hqid.symm)

/-- What is stored for a file, and that it is of this file. -/
theorem exists_of_mem_stored (h : Upkeep f project now now₁ now₂ xs xs' x stored one all)
    {q : Point} (hq : q ∈ stored) : ∃ y ∈ xs, ∃ p, latest (f y) q.id = some p ∧
      q = p.1.point project now p.2 ∧ q.file? = some y.file := by
  obtain ⟨p, hp, hqp⟩ := (h.mem_stored q).1 hq
  obtain ⟨y, hy, hp⟩ := h.latest_before.1 hp
  refine ⟨y, hy, p, hp, hqp, ?_⟩
  rw [hqp, CodeUnit.point_file?, h.files y (List.mem_append_left _ hy) p (latest_eq_some hp).1]

/-- What a file gives now is left by a full pass. -/
theorem mem_all_of_latest (h : Upkeep f project now now₁ now₂ xs xs' x stored one all)
    {y : Extracted} (hy : y ∈ xs') {id : PointId} {p : CodeUnit × Embedding}
    (hp : latest (f y) id = some p) : p.1.point project now₂ p.2 ∈ all := by
  refine (h.mem_all _).2 (Or.inl ⟨p, h.latest_after.2 ⟨y, hy, ?_⟩, rfl⟩)
  rwa [CodeUnit.point_id, (latest_eq_some hp).2]

/-- What the pass over the file leaves, a full pass leaves too. -/
theorem mem_all_of_mem_one (h : Upkeep f project now now₁ now₂ xs xs' x stored one all) {q : Point}
    (hq : q ∈ one) : q.untimed ∈ all.map Point.untimed := by
  rw [List.mem_map]
  rcases (h.mem_one q).1 hq with ⟨p, hp, rfl⟩ | ⟨hnone, hold, hkept⟩
  · exact ⟨_, h.mem_all_of_latest h.edited.new hp, p.1.untimed_point ..⟩
  · obtain ⟨y, hy, p, hp, hqp, hfile⟩ := h.exists_of_mem_stored hold
    by_cases hyx : y.file = x.file
    · -- the edited file was skipped, or its old points would be gone
      have hskip : x.units.toOption = none := by
        by_contra hx
        exact hkept hx (hyx ▸ hfile)
      refine ⟨q, (h.mem_all q).2 (Or.inr ⟨?_, hold, x.file, h.edited.skipped_iff.2 hskip, ?_⟩), rfl⟩
      · cases hl : latest (xs'.flatMap f) q.id with
        | none => rfl
        | some p' =>
          obtain ⟨z, hz, hp'⟩ := h.latest_after.1 hl
          have hzx : z = x := h.edited.only z hz (hyx ▸
            h.file_eq (List.mem_append_right _ hz) (List.mem_append_left _ hy) hp' hp)
          rw [hzx, h.skipped x hskip] at hp'
          cases hp'
      · rw [← hyx]
        exact hfile
    · have hy' := (h.edited.others y hyx).2 hy
      refine ⟨_, h.mem_all_of_latest hy' hp, ?_⟩
      rw [hqp]
      exact p.1.untimed_point ..

/-- What a full pass leaves, the pass over the file leaves too. -/
theorem mem_one_of_mem_all (h : Upkeep f project now now₁ now₂ xs xs' x stored one all) {q : Point}
    (hq : q ∈ all) : q.untimed ∈ one.map Point.untimed := by
  rw [List.mem_map]
  have hnew : x ∈ xs ++ xs' := List.mem_append_right _ h.edited.new
  rcases (h.mem_all q).1 hq with ⟨p, hp, hqp⟩ | ⟨hnone, hold, file, hskipped, hfile⟩
  · obtain ⟨y, hy, hp⟩ := h.latest_after.1 hp
    have hpid := (latest_eq_some hp).2
    by_cases hyx : y.file = x.file
    · rw [h.edited.only y hy hyx] at hp
      refine ⟨_, (h.mem_one (p.1.point project now₁ p.2)).2 (Or.inl ⟨p, ?_, rfl⟩), ?_⟩
      · rwa [CodeUnit.point_id, hpid]
      · rw [hqp]
        exact p.1.untimed_point ..
    · -- another file gives what it gave before, which is stored
      have hy' := (h.edited.others y hyx).1 hy
      have hold : p.1.point project now p.2 ∈ stored := by
        refine (h.mem_stored _).2 ⟨p, h.latest_before.2 ⟨y, hy', ?_⟩, rfl⟩
        rwa [CodeUnit.point_id, hpid]
      refine ⟨_, (h.mem_one _).2 (Or.inr ⟨?_, hold, fun _ => ?_⟩), ?_⟩
      · rw [CodeUnit.point_id, hpid]
        cases hl : latest (f x) q.id with
        | none => rfl
        | some p' => exact absurd (h.file_eq (List.mem_append_left _ hy') hnew hp hl) hyx
      · rw [CodeUnit.point_file?, h.files y (List.mem_append_left _ hy') p (latest_eq_some hp).1,
          Ne, Option.some.injEq]
        exact hyx
      · rw [hqp]
        exact p.1.untimed_point ..
  · obtain ⟨y, hy, p, hp, -, hyfile⟩ := h.exists_of_mem_stored hold
    have hyx : y.file = x.file := by
      by_contra hyx
      rw [h.latest_after.2 ⟨y, (h.edited.others y hyx).2 hy, hp⟩] at hnone
      cases hnone
    rw [hyfile, Option.some.injEq] at hfile
    have hskip : x.units.toOption = none :=
      h.edited.skipped_iff.1 (by rw [← hyx, hfile]; exact hskipped)
    refine ⟨q, (h.mem_one q).2 (Or.inr ⟨?_, hold, fun hx => absurd hskip hx⟩), rfl⟩
    rw [h.skipped x hskip]
    rfl

end Upkeep

/-! ## The two passes -/

theorem relative_of_inspectOne {ix : Indexer σ} {w : Workspace σ} {path : SourcePath}
    {x : Extracted} (h : inspectOne ix w path = .ok [x]) : ix.relative w.disk path = .ok x.file := by
  obtain ⟨file, hfile, hnil | ⟨y, hy, hx⟩⟩ := inspectOne_ok h
  · cases hnil
  · cases hy
    rw [hfile, (extractFile_ok hx).1]

theorem inspectOne_congr (ix : Indexer σ) {w w' : Workspace σ} (hd : w'.disk = w.disk)
    (hg : w'.grammars = w.grammars) : inspectOne ix w' = inspectOne ix w := by
  funext path
  unfold inspectOne extractFile
  rw [hd, hg]

/-- The points after the pass over a file that prunes: unless the file is skipped, of its old points
only those found again stay. -/
theorem mem_file {ix : Indexer σ} {w : Workspace σ} {path : SourcePath} {x : Extracted}
    {ps : List (CodeUnit × Embedding)} {batches : List (List IndexItem)} {deleted : List Text}
    (found : (Job.file path).Found ix w [x] ps batches)
    (pruned : (Job.file path).Pruned ix w [x] (ps.map (itemOf ix.project w.now))
      (overlay w.client.points (batches.flatten.map pointOf)) deleted)
    (hprune : ix.pruneStale = true) (tidy : Tidy w.client.points) (hone : OneFile ps) (q : Point) :
    q ∈ without (overlay w.client.points (batches.flatten.map pointOf))
        (deleted.map PointId.ofKey) ↔
      (∃ p, latest ps q.id = some p ∧ q = p.1.point ix.project w.now p.2) ∨
      (latest ps q.id = none ∧ q ∈ w.client.points ∧
        (x.units.toOption ≠ none → q.file? ≠ some x.file)) := by
  rw [Job.mem_done found pruned tidy hone]
  refine or_congr_right (and_congr_right fun _ => and_congr_right fun hq => ?_)
  have hprunes : (Job.file path).prunes ix [x] = true ↔ x.units.toOption ≠ none := by
    simp [Job.prunes, hprune, Option.isSome_iff_ne_none]
  have hlists : (Job.file path).Lists ix w q ↔ q.file? = some x.file := by
    obtain ⟨project, now, u, v, hu⟩ := tidy.units q hq
    have hp : q.text? "file_path" = some u.filePath := by rw [hu]; exact CodeUnit.point_file? ..
    rw [Job.lists_iff]
    simp [Job.file?, relative_of_inspectOne found.inspected, Except.toOption, Point.holds_iff hp,
      show q.file? = some u.filePath from hp]
  rw [hprunes, hlists]
  simp [Job.spares]

theorem nodup_untimed {points : List Point} (h : DistinctIds points) :
    (points.map Point.untimed).Nodup := by
  apply List.Nodup.of_map (·.id)
  rw [List.map_map]
  exact h

/-- A workspace in which a file has been given new content since a pass from `w` to `w'`. -/
structure AfterEdit (w w' : Workspace σ) (path : List Text) (new : List UInt8)
    (v : Workspace σ) : Prop where
  disk : v.disk = w.disk.writeFile path new
  grammars : v.grammars = w.grammars
  points : v.client.points = w'.client.points

/-- What is written for a file comes from its units. -/
theorem exists_of_mem_written {ix : Indexer σ} {s : σ} {x : Extracted} {p : CodeUnit × Embedding}
    (h : p ∈ written ix s x) : ∃ units, x.units = .ok units ∧ p.1 ∈ units := by
  unfold written at h
  split at h
  · next units hunits => exact ⟨units, hunits, Embedder.fst_mem_of_mem_paired h⟩
  · cases h

theorem written_survey {ix : Indexer σ} {w : Workspace σ} {xs : List Extracted} {s : σ}
    (hxs : survey ix w = .ok xs) {x : Extracted} (hx : x ∈ xs) {p : CodeUnit × Embedding}
    (hp : p ∈ written ix s x) : p.1.filePath = x.file ∧ p.1.key ∈ keysInvolved ix w := by
  obtain ⟨units, hunits, hpu⟩ := exists_of_mem_written hp
  refine ⟨filePath_of_mem_survey hxs hx hunits p.1 hpu, Or.inr ⟨xs, hxs, p.1, ?_, rfl⟩⟩
  refine List.mem_flatten.2 ⟨units, List.mem_filterMap.2 ⟨x, hx, ?_⟩, hpu⟩
  rw [hunits]
  rfl

/-- Two full passes with an edit between them, the first from an empty store, keep up like any pass
over the edited file that leaves `one`. -/
theorem upkeep_of_refreshed {ix : Indexer σ} {w w' w₂ w₂' : Workspace σ} {xs xs₂ : List Extracted}
    {ps ps₂ : List (CodeUnit × Embedding)} {x : Extracted} {now₁ : Text} {one : List Point}
    (hembed : ix.embedder.IsFunction)
    (hinj : Set.InjOn PointId.ofKey (keysInvolved ix w ∪ keysInvolved ix w₂))
    (hplain : ∀ y ∈ xs ++ xs₂, IsPlainPath y.file) (hempty : w.client.points = [])
    (h : Refreshed ix w w' xs ps) (h₂ : Refreshed ix w₂ w₂' xs₂ ps₂)
    (hpoints : w₂.client.points = w'.client.points) (hedited : Edited xs xs₂ x)
    (hone : ∀ q, q ∈ one ↔
      (∃ p, latest (written ix w.embedding x) q.id = some p ∧
        q = p.1.point ix.project now₁ p.2) ∨
      (latest (written ix w.embedding x) q.id = none ∧ q ∈ w'.client.points ∧
        (x.units.toOption ≠ none → q.file? ≠ some x.file))) :
    Upkeep (written ix w.embedding) ix.project w.now now₁ w₂.now xs xs₂ x w'.client.points one
      w₂'.client.points := by
  have hps : ps = xs.flatMap (written ix w.embedding) :=
    pairs_lists hembed .full h.embedded w.embedding
  have hps₂ : ps₂ = xs₂.flatMap (written ix w.embedding) :=
    pairs_lists hembed .full h₂.embedded w.embedding
  have hunit : ∀ y ∈ xs ++ xs₂, ∀ p ∈ written ix w.embedding y,
      p.1.filePath = y.file ∧ p.1.key ∈ keysInvolved ix w ∪ keysInvolved ix w₂ := by
    intro y hy p hp
    rcases List.mem_append.1 hy with hy | hy
    · obtain ⟨hfile, hkey⟩ := written_survey h.surveyed hy hp
      exact ⟨hfile, Or.inl hkey⟩
    · obtain ⟨hfile, hkey⟩ := written_survey h₂.surveyed hy hp
      exact ⟨hfile, Or.inr hkey⟩
  have hstored : ∀ q, q ∈ w'.client.points ↔
      ∃ p, latest ps q.id = some p ∧ q = p.1.point ix.project w.now p.2 := by
    intro q
    rw [h.mem, hempty]
    simp
  refine ⟨hedited, fun y hy p hp => (hunit y hy p hp).1, ?_, ?_, hps ▸ hstored, hone, fun q => ?_⟩
  · intro y hy z hz p hp q hq hid
    obtain ⟨hpy, hpk⟩ := hunit y hy p hp
    obtain ⟨hqz, hqk⟩ := hunit z hz q hq
    rw [← hpy, ← hqz]
    exact CodeUnit.filePath_eq_of_key_eq (hpy ▸ hplain y hy) (hqz ▸ hplain z hz)
      (hinj hpk hqk hid)
  · intro y hy
    unfold written
    split
    · next units hunits => rw [hunits] at hy; cases hy
    · rfl
  · -- all that is stored is of the project
    rw [h₂.mem, hpoints, ← hps₂]
    refine or_congr_right (and_congr_right fun _ => and_congr_right fun hq => ?_)
    obtain ⟨p, -, hqp⟩ := (hstored q).1 hq
    have hproject : q.project? = some ix.project := by rw [hqp, CodeUnit.point_project?]
    exact ⟨fun hq => hq hproject, fun hq _ => hq⟩

/-- The points after a pass over a file that succeeds and prunes. -/
theorem mem_file_of_success {ix : Indexer σ} {w w' : Workspace σ} {report : Report}
    {path : SourcePath} {x : Extracted} (hprune : ix.pruneStale = true)
    (hembed : ix.embedder.IsFunction) (tidy : Tidy w.client.points)
    (hx : inspectOne ix w (ix.absolute path) = .ok [x])
    (hrun : (Job.file path).run ix w = (.ok report, w')) (hsuccess : report.success = true)
    (hunits : ∀ units, x.units = .ok units → ∀ u ∈ units, u.filePath = x.file) (s : σ) :
    Tidy w'.client.points ∧ ∀ q, q ∈ w'.client.points ↔
      (∃ p, latest (written ix s x) q.id = some p ∧ q = p.1.point ix.project w.now p.2) ∨
      (latest (written ix s x) q.id = none ∧ q ∈ w.client.points ∧
        (x.units.toOption ≠ none → q.file? ≠ some x.file)) := by
  have hends := Job.run_succeeded hrun hsuccess
  obtain ⟨xs, ps, batches, deleted, found, pruned, -, -, hpts⟩ := hends.of_ok
  have hxs : xs = [x] := Except.ok.inj (found.inspected.symm.trans hx)
  subst hxs
  have hps : ps = written ix s x := by
    rw [pairs_lists hembed (.file path) found.embedded s]
    simp
  have hone : OneFile ps := by
    have hfile : ∀ p ∈ ps, p.1.filePath = x.file := by
      intro p hp
      obtain ⟨units, hu, hpu⟩ := exists_of_mem_written (hps ▸ hp)
      exact hunits units hu p.1 hpu
    intro p hp q hq _
    rw [hfile p hp, hfile q hq]
  refine ⟨hends.tidy tidy, fun q => ?_⟩
  rw [hpts, mem_file found pruned hprune tidy hone, hps]

/-- Once a file was edited, the pass over it and a full pass leave the same points, as long as ids
tell the keys apart. -/
theorem file_pass_agrees {ix : Indexer σ} {w w' w₁ w₁' w₂ w₂' : Workspace σ}
    {report report₁ report₂ : Report} {path : List Text} {old new : List UInt8}
    {file : SourcePath} {paths : List (List Text)} (hprune : ix.pruneStale = true)
    (hix : IsPlainProject ix w.disk) (hembed : ix.embedder.IsFunction)
    (hinj : Set.InjOn PointId.ofKey (keysInvolved ix w ∪ keysInvolved ix w₂))
    (hempty : w.client.points = [])
    (hrun : (full ix).run w = (.ok report, w')) (hsuccess : report.success = true)
    (hold : w.disk.raw? (ix.root.parts ++ path) = some (.file old))
    (hw₁ : AfterEdit w w' (ix.root.parts ++ path) new w₁)
    (hw₂ : AfterEdit w w' (ix.root.parts ++ path) new w₂)
    (hpaths : Scan.sources w₂.disk ix.root ix.config = .ok paths) (hpath : path ∈ paths)
    (hfile : ix.absolute file = ix.root.join ⟨.relative, path⟩)
    (hrun₁ : (Pass.file ix file).run w₁ = (.ok report₁, w₁')) (hsuccess₁ : report₁.success = true)
    (hrun₂ : (full ix).run w₂ = (.ok report₂, w₂')) (hsuccess₂ : report₂.success = true) :
    (w₁'.client.points.map Point.untimed).Perm (w₂'.client.points.map Point.untimed) := by
  have hix₂ : IsPlainProject ix w₂.disk := hw₂.disk ▸ hix.writeFile hold new
  obtain ⟨xs, ps, h, -⟩ := refreshed_of_success hprune (hempty ▸ tidy_nil) (by simp [hempty])
    (fun _ hxs => isPlainPath_of_survey hix hxs) (hinj.mono Set.subset_union_left) hrun hsuccess
  have hplain := isPlainPath_of_survey hix h.surveyed
  obtain ⟨xs₂, ps₂, h₂, -⟩ := refreshed_of_success hprune (hw₂.points ▸ h.after)
    (hw₂.points ▸ h.isPlainPath_stored (by simp [hempty]) hplain)
    (fun _ hxs => isPlainPath_of_survey hix₂ hxs) (hinj.mono Set.subset_union_right) hrun₂ hsuccess₂
  have hplain₂ := isPlainPath_of_survey hix₂ h₂.surveyed
  obtain ⟨x, hedited, hx⟩ := edited_of_writeFile hix hold hw₂.disk hw₂.grammars h.surveyed
    h₂.surveyed hpaths hpath
  -- the pass over the file finds what the full pass finds in it
  have hx₁ : inspectOne ix w₁ (ix.absolute file) = .ok [x] := by
    rw [hfile, inspectOne_congr ix (hw₁.disk.trans hw₂.disk.symm)
      (hw₁.grammars.trans hw₂.grammars.symm), hx]
  obtain ⟨tidy₁, hmem₁⟩ := mem_file_of_success hprune hembed (hw₁.points ▸ h.after) hx₁ hrun₁
    hsuccess₁ (fun _ hu => filePath_of_mem_survey h₂.surveyed hedited.new hu) w.embedding
  rw [hw₁.points] at hmem₁
  have hkeep := upkeep_of_refreshed hembed hinj
    (List.forall_mem_append.2 ⟨hplain, hplain₂⟩) hempty h h₂ hw₂.points hedited hmem₁
  rw [List.perm_ext_iff_of_nodup (nodup_untimed tidy₁.distinct) (nodup_untimed h₂.after.distinct)]
  intro q
  constructor
  · intro hq
    obtain ⟨r, hr, rfl⟩ := List.mem_map.1 hq
    exact hkeep.mem_all_of_mem_one hr
  · intro hq
    obtain ⟨r, hr, rfl⟩ := List.mem_map.1 hq
    exact hkeep.mem_one_of_mem_all hr

namespace Sample

/-- The project `a` with two files, of which the second has two functions. -/
def files : List (Text × List UInt8) := [("k.py", [0x68]), ("m.py", [0x66, 0x67])]

/-- The workspace with an empty store. -/
def fresh : Workspace Unit := lettered files (.fresh (.text "code"))

/-- The workspace after the second file lost one of its functions and got two others, with the store
that indexing the project before has left. -/
def edited : Workspace Unit :=
  { fresh with
    disk := (disksOf files).writeFile ["a", "m.py"] [0x67, 0x68, 0x69]
    client := (Job.full.run (indexer "a") fresh).2.client }

/-- The keys before the edit and those after it. -/
def keysBefore : List Text := ["k.py::k.py_h_0", "m.py::m.py_f_0", "m.py::m.py_g_1"]

def keysAfter : List Text :=
  ["k.py::k.py_h_0", "m.py::m.py_g_0", "m.py::m.py_h_1", "m.py::m.py_i_2"]

theorem raw?_disksOf {files : List (Text × List UInt8)} {path : List Text} {n : FileNode}
    (h : (disksOf files).raw? ("a" :: path) = some n) :
    (∃ entries, n = .folder entries) ∨ ∃ e ∈ files, path = [e.1] ∧ n = .file e.2 := by
  unfold Disk.raw? disksOf at h
  rw [FileNode.find?_folder, List.lookup_cons_self, Option.bind_some] at h
  cases path with
  | nil =>
    cases h
    exact Or.inl ⟨_, rfl⟩
  | cons p ps =>
    rw [FileNode.find?_folder] at h
    obtain ⟨m, hm, hn⟩ := Option.bind_eq_some_iff.1 h
    obtain ⟨e, he, heq⟩ := List.mem_map.1 (FileNode.mem_of_lookup hm)
    cases heq
    cases ps with
    | nil =>
      cases hn
      exact Or.inr ⟨e, he, rfl, rfl⟩
    | cons q qs => cases hn

theorem isPlainProject_disksOf {files : List (Text × List UInt8)}
    (hnames : ∀ e ∈ files, IsEntryName e.1 ∧ ¬ colons <:+: (Scan.relText [e.1]).toList)
    (hdistinct : (files.map (·.1)).Nodup) : IsPlainProject (indexer "a") (disksOf files) := by
  refine ⟨rfl, ⟨?_, ⟨_, rfl⟩, ?_⟩, ?_⟩
  · have hprojects : ∀ name ∈ (["a", "b"] : List Text), IsEntryName name := by decide
    have hdistinct : (["a", "b"] : List Text).Nodup := by decide
    refine FileNode.wellNamed_folder (fun e he => hprojects e.1 (List.mem_map_of_mem he))
      hdistinct fun e he => ?_
    rcases List.mem_pair.1 he with rfl | rfl
    · refine FileNode.wellNamed_folder ?_ (by rwa [List.map_map]) ?_
      · intro e he
        obtain ⟨file, hfile, rfl⟩ := List.mem_map.1 he
        exact (hnames file hfile).1
      · intro e he
        obtain ⟨file, -, rfl⟩ := List.mem_map.1 he
        exact FileNode.wellNamed_file _
    · refine FileNode.wellNamed_folder (by decide) (by decide) fun e he => ?_
      rw [List.mem_singleton.1 he]
      exact FileNode.wellNamed_file _
  · intro path target h
    rcases raw?_disksOf h with ⟨_, hn⟩ | ⟨_, -, -, hn⟩ <;> cases hn
  · intro path content h
    rcases raw?_disksOf h with ⟨_, hn⟩ | ⟨e, he, rfl, -⟩
    · cases hn
    · exact (hnames e he).2

theorem injOn_edited : Set.InjOn PointId.ofKey
    (keysInvolved (indexer "a") fresh ∪ keysInvolved (indexer "a") edited) := by
  have hbefore : keysInvolved (indexer "a") fresh ⊆ { key | key ∈ [] ++ keysBefore } :=
    keysInvolved_subset rfl (by decide +kernel)
  have hafter : keysInvolved (indexer "a") edited ⊆ { key | key ∈ keysBefore ++ keysAfter } :=
    keysInvolved_subset (by decide +kernel) (by decide +kernel)
  have hall : ∀ key ∈ keysBefore ++ keysAfter, key ∈ keysBefore ++ keysAfter.tail := by
    decide +kernel
  have hnodup : ((keysBefore ++ keysAfter.tail).map PointId.ofKey).Nodup := by decide +kernel
  refine (injOn_ofKey hnodup).mono ?_
  rintro key (hkey | hkey)
  · exact hall key (List.mem_append_left _ (hbefore hkey))
  · exact hall key (hafter hkey)

end Sample

/-- After the edit, which drops a unit, renames one and adds two, both passes leave the same
points. -/
theorem sample_edit_agrees :
    succeeded ((Job.file (Sample.path "m.py")).run (Sample.indexer "a") Sample.edited).1 = true ∧
      succeeded (Job.full.run (Sample.indexer "a") Sample.edited).1 = true ∧
      (((Job.file (Sample.path "m.py")).run (Sample.indexer "a") Sample.edited).2.client.points.map
        Point.untimed).Perm
      ((Job.full.run (Sample.indexer "a") Sample.edited).2.client.points.map Point.untimed) ∧
      (Job.full.run (Sample.indexer "a") Sample.edited).2.client.points.map Point.key? =
        Sample.keysAfter.map some := by
  have hs : succeeded (Job.full.run (Sample.indexer "a") Sample.fresh).1 = true := by decide +kernel
  have hs₁ : succeeded
      ((Job.file (Sample.path "m.py")).run (Sample.indexer "a") Sample.edited).1 = true := by
    decide +kernel
  obtain ⟨hs₂, hkeys⟩ : succeeded (Job.full.run (Sample.indexer "a") Sample.edited).1 = true ∧
      (Job.full.run (Sample.indexer "a") Sample.edited).2.client.points.map Point.key? =
        Sample.keysAfter.map some := by decide +kernel
  have hplain : IsPlainProject (Sample.indexer "a") Sample.fresh.disk :=
    Sample.isPlainProject_disksOf (by decide +kernel) (by decide +kernel)
  have hafter : AfterEdit Sample.fresh (Job.full.run (Sample.indexer "a") Sample.fresh).2
      ["a", "m.py"] [0x67, 0x68, 0x69] Sample.edited := ⟨rfl, rfl, rfl⟩
  have hpaths : Scan.sources Sample.edited.disk (Sample.indexer "a").root
      (Sample.indexer "a").config = .ok [["k.py"], ["m.py"]] := by decide +kernel
  obtain ⟨report, hrun, hsuccess⟩ := Job.exists_report hs
  obtain ⟨report₁, hrun₁, hsuccess₁⟩ := Job.exists_report hs₁
  obtain ⟨report₂, hrun₂, hsuccess₂⟩ := Job.exists_report hs₂
  refine ⟨hs₁, hs₂, ?_, hkeys⟩
  exact file_pass_agrees rfl hplain (fun _ _ _ => rfl) Sample.injOn_edited rfl hrun hsuccess rfl
    hafter hafter hpaths (by decide) rfl hrun₁ hsuccess₁ hrun₂ hsuccess₂

end Pass

end CodeAtlas
