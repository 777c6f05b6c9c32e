import CodeAtlas.Proofs.Pass.Convergence
import CodeAtlas.Proofs.Unit.Distinct
import Mathlib.Data.Set.Card

/-!
# The counts of a report

The report of a full pass counts the entries that were scanned (`Tallied`), while skipped files and
keys go by the path that an entry leads to. So the counts agree with what is skipped and stored
exactly if no two entries lead to the same place:

    report.filesScanned = report.filesIndexed + report.skippedFiles.length ↔ (skippedOf xs).Nodup
    report.unitsIndexed = (keysWritten ix w w').ncard ↔ ((unitLists xs).flatten.map (·.key)).Nodup
-/

namespace CodeAtlas.Pass

open Collection VectorIndex

variable {σ : Type}

/-! ## What is noted while files are extracted -/

/-- Every file either gives units or is skipped. -/
theorem length_unitLists_add_length_skippedOf (xs : List Extracted) :
    (unitLists xs).length + (skippedOf xs).length = xs.length := by
  unfold unitLists skippedOf
  rw [List.length_filterMap_eq_countP, List.length_map, ← List.countP_eq_length_filter,
    List.length_eq_countP_add_countP (·.units.toOption.isSome)]
  simp only [Bool.not_eq_true, Option.isSome_eq_false_iff, Bool.decide_eq_true]

/-- A file is listed as skipped once. -/
theorem nodup_setReason {files : List (Text × Text)} (h : (files.map (·.1)).Nodup)
    (file reason : Text) : ((Report.setReason files file reason).map (·.1)).Nodup := by
  induction files with
  | nil => exact List.nodup_singleton _
  | cons f rest ih =>
    obtain ⟨f, r⟩ := f
    obtain ⟨hf, hrest⟩ := List.nodup_cons.1 h
    unfold Report.setReason
    by_cases hfile : f = file
    · rw [if_pos hfile]
      exact List.nodup_cons.2 ⟨hfile ▸ hf, hrest⟩
    · rw [if_neg hfile]
      refine List.nodup_cons.2 ⟨fun hmem => ?_, ih hrest⟩
      rcases (mem_setReason rest file reason f).1 hmem with hmem | heq
      · exact hf hmem
      · exact hfile heq

/-- What a report says after files were noted. -/
structure Noted (xs : List Extracted) (r : Report) : Prop where
  indexed : r.filesIndexed = (unitLists xs).length
  skipped : ∀ file, file ∈ r.skippedFiles.map (·.1) ↔ file ∈ skippedOf xs
  nodup : (r.skippedFiles.map (·.1)).Nodup

theorem Noted.noteFile {xs : List Extracted} {r : Report} (h : Noted xs r) (x : Extracted) :
    Noted (xs ++ [x]) (noteFile r x) := by
  unfold Pass.noteFile
  cases hx : x.units with
  | ok units =>
    have hlists : unitLists (xs ++ [x]) = unitLists xs ++ [units] := by
      simp [unitLists, hx, Except.toOption]
    have hskipped : skippedOf (xs ++ [x]) = skippedOf xs := by
      simp [skippedOf, hx, Except.toOption]
    refine ⟨?_, hskipped ▸ h.skipped, h.nodup⟩
    rw [hlists, List.length_append, List.length_singleton, ← h.indexed]
  | error reason =>
    have hlists : unitLists (xs ++ [x]) = unitLists xs := by
      simp [unitLists, hx, Except.toOption]
    have hskipped : skippedOf (xs ++ [x]) = skippedOf xs ++ [x.file] := by
      simp [skippedOf, hx, Except.toOption]
    refine ⟨hlists ▸ h.indexed, fun file => ?_, nodup_setReason h.nodup _ _⟩
    rw [hskipped, List.mem_append, List.mem_singleton, ← h.skipped]
    exact mem_setReason _ _ _ _

theorem Noted.foldl {xs : List Extracted} {r : Report} (h : Noted xs r) (ys : List Extracted) :
    Noted (xs ++ ys) (ys.foldl Pass.noteFile r) := by
  induction ys generalizing xs r with
  | nil => rwa [List.append_nil]
  | cons y ys ih =>
    rw [List.foldl_cons, List.append_cons]
    exact ih (h.noteFile y)

theorem filesScanned_foldl (xs : List Extracted) (r : Report) :
    (xs.foldl noteFile r).filesScanned = r.filesScanned := by
  induction xs generalizing r with
  | nil => rfl
  | cons x xs ih =>
    rw [List.foldl_cons, ih]
    unfold noteFile
    split <;> rfl

/-! ## The report of a full pass -/

/-- A report with the counts of all that files gave. -/
structure Tallied (xs : List Extracted) (r : Report) : Prop extends Noted xs r where
  scanned : r.filesScanned = xs.length
  units : r.unitsIndexed = (unitLists xs).flatten.length

/-- Pruning changes no count but its own. -/
theorem tallied_pruneProject {ix : Indexer σ} {xs : List Extracted} {items : List IndexItem}
    {r r' : Report} {w w' : Workspace σ} (hr : Tallied xs r)
    (h : exec (pruneProject ix items) r w = ((.ok (), r'), w')) : Tallied xs r' := by
  rw [exec_pruneProject] at h
  rcases exec_prune (picks_outside ..) h with ⟨stored, -, -, rfl, -⟩ | ⟨f, hf, -⟩
  · exact ⟨⟨hr.indexed, hr.skipped, hr.nodup⟩, hr.scanned, hr.units⟩
  · cases hf

/-- The last part of a full pass counts the items. -/
theorem tallied_full_rest {ix : Indexer σ} {w w' : Workspace σ} {xs : List Extracted}
    {ps : List (CodeUnit × Embedding)} {now : Text} {total : Nat} {r r' : Report}
    (hnoted : Noted xs r) (hscanned : r.filesScanned = xs.length)
    (hps : ps.map (·.1) = (unitLists xs).flatten)
    (h : exec (do
        upsert ix (ps.map (itemOf ix.project now))
        note fun r => { r with unitsIndexed := (ps.map (itemOf ix.project now)).length }
        if ix.pruneStale then pruneProject ix (ps.map (itemOf ix.project now))
        step .turn do
          tell ⟨total, total, none, .indexed⟩
          return .ok ()) r w = ((.ok (), r'), w')) : Tallied xs r' := by
  have hunits : (ps.map (itemOf ix.project now)).length = (unitLists xs).flatten.length := by
    rw [List.length_map, ← hps, List.length_map]
  have hcounted : Tallied xs { r with unitsIndexed := (ps.map (itemOf ix.project now)).length } :=
    ⟨⟨hnoted.indexed, hnoted.skipped, hnoted.nodup⟩, hscanned, hunits⟩
  obtain ⟨batches, hbatches⟩ := exists_batches_items ix.index.batchSize ix.project now ps
  rw [exec_bind] at h
  split at h
  · next u r1 w1 hu =>
    obtain ⟨rfl, -⟩ := exec_upsert hbatches hu
    rw [exec_bind, exec_note] at h
    dsimp only at h
    split at h
    · rw [exec_bind] at h
      split at h
      · next u r2 w2 hp =>
        cases h
        exact tallied_pruneProject hcounted hp
      · cases h
    · cases h
      exact hcounted
  · cases h

theorem tallied_fullSteps {ix : Indexer σ} {w w' : Workspace σ} {r : Report}
    (h : exec (fullSteps ix) (.start ix.project .full) w = ((.ok (), r), w')) :
    ∃ xs, survey ix w = .ok xs ∧ Tallied xs r := by
  unfold fullSteps at h
  rw [exec_bind, exec_scan] at h
  cases hp : sourcePaths ix w with
  | error f => rw [hp] at h; cases h
  | ok paths =>
    rw [hp] at h
    dsimp only at h
    rw [exec_bind, exec_note] at h
    dsimp only at h
    rw [exec_bind] at h
    split at h
    · next lists r1 w1 hx =>
      obtain ⟨rfl, ⟨xs, hxs, ha, rfl⟩ | ⟨f, -, ha⟩⟩ := exec_extractAll hx
      · cases ha
        rw [exec_bind] at h
        split at h
        · next items r2 w2 he =>
          obtain ⟨rfl, -, ⟨ps, hps, ha⟩ | ⟨f, ha, -⟩⟩ := exec_embedFiles he
          · cases ha
            refine ⟨xs, by rw [survey, hp]; exact hxs, ?_⟩
            have hnone : Noted [] { Report.start ix.project .full with filesScanned := paths.length } :=
              ⟨rfl, fun _ => Iff.rfl, List.nodup_nil⟩
            refine tallied_full_rest (hnone.foldl xs) ?_ ?_ h
            · rw [filesScanned_foldl]
              exact (forall₂_of_mapM_ok hxs).length_eq
            · rw [Embedder.units_pairs hps, flatten_filled]
          · cases ha
        · cases h
      · cases ha
    · cases h

/-- A full pass that succeeds reports the counts of what its files gave. -/
theorem tallied_of_success {ix : Indexer σ} {w w' : Workspace σ} {report : Report}
    (hrun : Job.full.run ix w = (.ok report, w')) (hsuccess : report.success = true) :
    ∃ xs, survey ix w = .ok xs ∧ Tallied xs report := by
  obtain ⟨answer, r, w1, hexec, -, ⟨rfl, hr⟩ | ⟨f, rfl, hr⟩⟩ := Job.run_outcome (fun _ => rfl) hrun
  · cases hr
    exact tallied_fullSteps hexec
  · have hfailed : succeeded (f.result r) = true := hr ▸ hsuccess
    rw [succeeded_result] at hfailed
    cases hfailed

/-- As many as a list has elements, if and only if the list has none twice. -/
theorem ncard_eq_length_iff {α : Type} {s : Set α} {l : List α} (h : ∀ a, a ∈ s ↔ a ∈ l) :
    s.ncard = l.length ↔ l.Nodup := by
  classical
  have hs : s = (l.toFinset : Set α) := by
    ext a
    simp [h a]
  rw [hs, Set.ncard_coe_finset]
  exact Multiset.toFinset_card_eq_card_iff_nodup (m := (l : Multiset α))

theorem Tallied.length_skippedFiles_iff {xs : List Extracted} {r : Report} (h : Tallied xs r) :
    r.skippedFiles.length = (skippedOf xs).length ↔ (skippedOf xs).Nodup := by
  have hnames : { file | file ∈ skippedOf xs }.ncard = (r.skippedFiles.map (·.1)).length :=
    (ncard_eq_length_iff fun file => (h.skipped file).symm).2 h.nodup
  rw [List.length_map] at hnames
  rw [← hnames]
  exact ncard_eq_length_iff fun _ => Iff.rfl

/-! ## The keys of a full pass -/

/-- The keys under which points are stored, and those of the units found. -/
def keysMet (ix : Indexer σ) (w : Workspace σ) : Set Text :=
  { key | (∃ p ∈ w.client.points, keyOf p = .text key) ∨
    ∃ xs, survey ix w = .ok xs ∧ ∃ u ∈ (unitLists xs).flatten, u.key = key }

/-- The keys under which a full pass has stored one of its items. -/
def keysWritten (ix : Indexer σ) (w w' : Workspace σ) : Set Text :=
  { key | ∃ item ∈ Job.full.newItems ix w, item.id = key ∧ pointOf item ∈ w'.client.points }

/-- Keys are deleted that some point has and no item. -/
theorem Job.Pruned.of_mem {job : Job} {ix : Indexer σ} {w : Workspace σ} {xs : List Extracted}
    {items : List IndexItem} {points : List Point} {deleted : List Text}
    (h : job.Pruned ix w xs items points deleted) {key : Text} (hkey : key ∈ deleted) :
    (∃ q ∈ points, keyOf q = .text key) ∧ ∀ item ∈ items, item.id ≠ key := by
  cases h with
  | kept => cases hkey
  | pruned _ _ hl =>
    obtain ⟨hstale, -⟩ := List.mem_filter.1 hkey
    obtain ⟨hstored, hitems⟩ := List.mem_filter.1 hstale
    obtain ⟨q, hq, -, hk⟩ := hl.holds key hstored
    exact ⟨⟨q, hq, hk⟩, by simpa using hitems⟩

section
variable {ix : Indexer σ} {w w' : Workspace σ} {report : Report} {xs : List Extracted}

/-- A full pass that succeeds has stored the keys of all units found, and no others. -/
theorem mem_keysWritten (hinj : Set.InjOn PointId.ofKey (keysMet ix w))
    (hrun : Job.full.run ix w = (.ok report, w')) (hsuccess : report.success = true)
    (hxs : survey ix w = .ok xs) (key : Text) :
    key ∈ keysWritten ix w w' ↔ key ∈ (unitLists xs).flatten.map (·.key) := by
  obtain ⟨xs', ps, batches, deleted, found, pruned, -, -, hpts⟩ :=
    (Job.run_succeeded hrun hsuccess).of_ok
  obtain rfl : xs' = xs := Except.ok.inj (found.inspected.symm.trans hxs)
  have hitem : ∀ item ∈ ps.map (itemOf ix.project w.now),
      item.id ∈ (unitLists xs').flatten.map (·.key) := by
    intro item hitem
    obtain ⟨p, hp, rfl⟩ := List.mem_map.1 hitem
    exact List.mem_map_of_mem (found.mem_units.2 ⟨p, hp, rfl⟩)
  have hmet : ∀ key ∈ (unitLists xs').flatten.map (·.key), key ∈ keysMet ix w := by
    intro key hkey
    exact Or.inr ⟨xs', hxs, List.mem_map.1 hkey⟩
  unfold keysWritten
  rw [found.newItems_eq]
  constructor
  · rintro ⟨item, hi, rfl, -⟩
    exact hitem item hi
  · intro hkey
    obtain ⟨u, hu, rfl⟩ := List.mem_map.1 hkey
    obtain ⟨p, hp, rfl⟩ := found.mem_units.1 hu
    have hwritten : pointOf (itemOf ix.project w.now p) ∈ batches.flatten.map pointOf :=
      List.mem_map_of_mem ((Batch.mem_batches found.batched).2 (List.mem_map_of_mem hp))
    -- another item may have been stored under the key, but none of another key
    obtain ⟨q, hq, hnew, hid⟩ := exists_new_overlay w.client.points hwritten
    obtain ⟨item, hi, rfl⟩ := List.mem_map.1 hnew
    replace hi := (Batch.mem_batches found.batched).1 hi
    have hsame : item.id = p.1.key := hinj (hmet _ (hitem item hi)) (hmet _ hkey) hid
    refine ⟨item, hi, hsame, ?_⟩
    rw [hpts]
    refine mem_without.2 ⟨hq, fun hdel => ?_⟩
    obtain ⟨gone, hgone, hgoneid⟩ := List.mem_map.1 hdel
    obtain ⟨⟨old, hold, hk⟩, hno⟩ := pruned.of_mem hgone
    rcases mem_overlay hold with hnew' | hbefore
    · obtain ⟨item', hi', rfl⟩ := List.mem_map.1 hnew'
      rw [keyOf_pointOf] at hk
      cases hk
      exact hno item' ((Batch.mem_batches found.batched).1 hi') rfl
    · have hgonekey : gone = item.id :=
        hinj (Or.inl ⟨old, hbefore, hk⟩) (hmet _ (hitem item hi)) hgoneid
      exact hno item hi hgonekey.symm

/-! ## Units of different files -/

/-- The digests in the ids of a file's units do not collide. -/
def Extracted.IsCollisionFree (scheme : IdScheme) (x : Extracted) : Prop :=
  ∀ units, x.units = .ok units → Extract.CollisionFree scheme x.file units

/-- The units of a file are those of a call of the extractor. -/
theorem exists_call_of_extractFile {path : SourcePath} {file : Text} {x : Extracted}
    (h : extractFile ix w path file = .ok x) {units : List CodeUnit} (hu : x.units = .ok units) :
    ∃ c : Extract.Call, c.filePath = x.file ∧ c.settings = ix.extraction ∧ c.units = units := by
  unfold extractFile at h
  split at h
  · cases h
  · next source hread =>
    dsimp only at h
    unfold unitsOf at h
    split at h
    · next found hfound =>
      cases h
      cases hu
      refine ⟨⟨Language.catalog, w.grammars, ix.extraction, .inr source,
        (Language.ofFile? path.name).getD "", file⟩, rfl, rfl, ?_⟩
      unfold Extract.Call.units Extract.Call.result
      dsimp only
      rw [hfound]
      rfl
    · cases h
    · cases h
    · cases h
      cases hu

theorem exists_call (h : survey ix w = .ok xs) {x : Extracted} (hx : x ∈ xs) {units : List CodeUnit}
    (hu : x.units = .ok units) :
    ∃ c : Extract.Call, c.filePath = x.file ∧ c.settings = ix.extraction ∧ c.units = units := by
  unfold survey at h
  cases hp : sourcePaths ix w with
  | error f => rw [hp] at h; cases h
  | ok paths =>
    rw [hp] at h
    obtain ⟨path, -, hpath⟩ := (of_mapM_ok h).2 x hx
    unfold inspect at hpath
    split at hpath
    · cases hpath
    · exact exists_call_of_extractFile hpath hu

theorem nodup_keys_survey (h : survey ix w = .ok xs) (hfiles : (xs.map (·.file)).Nodup)
    (hplain : ∀ x ∈ xs, IsPlainPath x.file)
    (hfree : ∀ x ∈ xs, x.IsCollisionFree ix.extraction.scheme) :
    ((unitLists xs).flatten.map (·.key)).Nodup := by
  have hcall : ∀ x ∈ xs, ∀ units, x.units.toOption = some units →
      ∃ c : Extract.Call, c.filePath = x.file ∧ c.units = units ∧ c.IsCollisionFree := by
    intro x hx units hunits
    have hu : x.units = .ok units := by
      cases hxu : x.units with
      | error e => rw [hxu] at hunits; cases hunits
      | ok us => rw [hxu] at hunits; cases hunits; rfl
    obtain ⟨c, hfile, hsettings, rfl⟩ := exists_call h hx hu
    exact ⟨c, hfile, rfl, by rw [Extract.Call.IsCollisionFree, hfile, hsettings]; exact hfree x hx _ hu⟩
  rw [List.map_flatten, List.nodup_flatten, List.pairwise_map]
  constructor
  · rintro _ hl
    obtain ⟨units, hunits, rfl⟩ := List.mem_map.1 hl
    obtain ⟨x, hx, hxu⟩ := List.mem_filterMap.1 hunits
    obtain ⟨c, -, rfl, hc⟩ := hcall x hx units hxu
    exact Extract.Call.nodup_keys hc
  · rw [unitLists, List.pairwise_filterMap]
    refine (List.pairwise_map.1 hfiles).imp_of_mem fun hx hy hne units hxu units' hyu => ?_
    obtain ⟨c, hcx, rfl, -⟩ := hcall _ hx units hxu
    obtain ⟨d, hdy, rfl, -⟩ := hcall _ hy units' hyu
    exact Extract.Call.disjoint_keys (hcx ▸ hplain _ hx) (hdy ▸ hplain _ hy) (by rwa [hcx, hdy])

/-- What a full pass that succeeds reports. Scanned entries and items are counted one by one; skipped
files and stored keys are as many only if no two of them are the same, which they never are if no two
entries lead to one file. -/
theorem report_counts_entries (hinj : Set.InjOn PointId.ofKey (keysMet ix w))
    (hrun : (full ix).run w = (.ok report, w')) (hsuccess : report.success = true) :
    ∃ xs, survey ix w = .ok xs ∧
      report.filesScanned = xs.length ∧
      report.filesScanned = report.filesIndexed + (skippedOf xs).length ∧
      (∀ file, file ∈ report.skippedFiles.map (·.1) ↔ file ∈ skippedOf xs) ∧
      (report.filesScanned = report.filesIndexed + report.skippedFiles.length ↔
        (skippedOf xs).Nodup) ∧
      report.unitsIndexed = (unitLists xs).flatten.length ∧
      (∀ key, key ∈ keysWritten ix w w' ↔ key ∈ (unitLists xs).flatten.map (·.key)) ∧
      (report.unitsIndexed = (keysWritten ix w w').ncard ↔
        ((unitLists xs).flatten.map (·.key)).Nodup) ∧
      ((xs.map (·.file)).Nodup → (∀ x ∈ xs, IsPlainPath x.file) →
        (∀ x ∈ xs, x.IsCollisionFree ix.extraction.scheme) →
        report.filesScanned = report.filesIndexed + report.skippedFiles.length ∧
          report.unitsIndexed = (keysWritten ix w w').ncard) := by
  obtain ⟨xs, hxs, h⟩ := tallied_of_success hrun hsuccess
  have hkeys := mem_keysWritten hinj hrun hsuccess hxs
  have hscanned : report.filesScanned = report.filesIndexed + (skippedOf xs).length := by
    rw [h.scanned, h.indexed, length_unitLists_add_length_skippedOf]
  have hfiles : report.filesScanned = report.filesIndexed + report.skippedFiles.length ↔
      (skippedOf xs).Nodup := by
    rw [← h.length_skippedFiles_iff]
    omega
  have hunits : report.unitsIndexed = (keysWritten ix w w').ncard ↔
      ((unitLists xs).flatten.map (·.key)).Nodup := by
    rw [← ncard_eq_length_iff hkeys, List.length_map, h.units, eq_comm]
  refine ⟨xs, hxs, h.scanned, hscanned, h.skipped, hfiles, h.units, hkeys, hunits, ?_⟩
  intro hdistinct hplain hfree
  exact ⟨hfiles.2 (hdistinct.sublist (List.filter_sublist.map _)),
    hunits.2 (nodup_keys_survey hxs hdistinct hplain hfree)⟩

end

/-! ## A project with links and without -/

/-- On an empty store a single key is told apart. -/
theorem injOn_keysMet {ix : Indexer σ} {w : Workspace σ} {xs : List Extracted}
    (hpoints : w.client.points = []) (hxs : survey ix w = .ok xs) (key : Text)
    (hkeys : ∀ k ∈ (unitLists xs).flatten.map (·.key), k = key) (f : Text → PointId) :
    Set.InjOn f (keysMet ix w) := by
  have hone : ∀ k ∈ keysMet ix w, k = key := by
    rintro k (⟨p, hp, -⟩ | ⟨xs', hxs', hu⟩)
    · rw [hpoints] at hp
      cases hp
    · obtain rfl : xs' = xs := Except.ok.inj (hxs'.symm.trans hxs)
      exact hkeys k (List.mem_map.2 hu)
  exact fun a ha b hb _ => (hone a ha).trans (hone b hb).symm

namespace Sample

/-- The project `a` with a file, one that has errors, and the given entries. -/
def mixed (entries : List (Text × FileNode)) : Workspace Unit :=
  { workspace (.fresh (.text "code")) with
    disk := ⟨.folder [("a", .folder (("m.py", .file [0x66]) :: ("x.py", .file [0x21]) :: entries))],
      [], [], []⟩
    grammars := fun _ => .ok fun source =>
      ⟨.node "function_definition" none ⟨0, source.length, 0, 0⟩ [], source == [0x21]⟩ }

/-- The same with links to both files. -/
def doubled : Workspace Unit := mixed [("y.py", .link "m.py"), ("z.py", .link "x.py")]

/-- The key of the only unit. -/
def onlyKey : Text := "m.py::m.py_unknown_python_func_0"

end Sample

/-- Without links there are as many skipped files and stored keys as the report counts. -/
theorem mixed_counts_agree : ∃ report w',
    (full (Sample.indexer "a")).run (Sample.mixed []) = (.ok report, w') ∧
      report.filesScanned = 2 ∧
      report.filesScanned = report.filesIndexed + report.skippedFiles.length ∧
      report.unitsIndexed = (keysWritten (Sample.indexer "a") (Sample.mixed []) w').ncard := by
  have hs : succeeded (Job.full.run (Sample.indexer "a") (Sample.mixed [])).1 = true := by
    decide +kernel
  have hfound : (survey (Sample.indexer "a") (Sample.mixed [])).toOption.map (fun xs =>
      (xs.map (·.file), (unitLists xs).flatten.map (·.key))) =
        some ((["m.py", "x.py"] : List Text), [Sample.onlyKey]) := by decide +kernel
  obtain ⟨report, hrun, hsuccess⟩ := Job.exists_report hs
  cases hxs : survey (Sample.indexer "a") (Sample.mixed []) with
  | error f => rw [hxs] at hfound; cases hfound
  | ok xs =>
    rw [hxs, Except.toOption, Option.map_some, Option.some.injEq, Prod.mk.injEq] at hfound
    obtain ⟨hnames, hkeys⟩ := hfound
    have hinj := injOn_keysMet rfl hxs Sample.onlyKey (by simp [hkeys]) PointId.ofKey
    obtain ⟨xs', hxs', hscanned, -, -, -, -, -, -, hagree⟩ :=
      report_counts_entries hinj hrun hsuccess
    obtain rfl : xs' = xs := Except.ok.inj (hxs'.symm.trans hxs)
    have hplain : ∀ x ∈ xs', IsPlainPath x.file := by
      intro x hx
      have hmem := List.mem_map_of_mem (f := (·.file)) hx
      rw [hnames] at hmem
      rcases List.mem_pair.1 hmem with hfile | hfile <;>
      · rw [hfile]
        decide
    have hfree : ∀ x ∈ xs', x.IsCollisionFree (Sample.indexer "a").extraction.scheme := by
      intro x _ units _ hscheme
      cases hscheme
    refine ⟨report, _, hrun, ?_, hagree ?_ hplain hfree⟩
    · rw [hscanned, ← List.length_map (f := (·.file)), hnames]
      rfl
    · rw [hnames]
      decide

/-- With links to both files neither count agrees: four entries are one file indexed and its link and
one file skipped and its link, and the two units have one key. -/
theorem doubled_counts_differ : ∃ report w',
    (full (Sample.indexer "a")).run Sample.doubled = (.ok report, w') ∧ report.success = true ∧
      report.filesScanned ≠ report.filesIndexed + report.skippedFiles.length ∧
      report.unitsIndexed ≠ (keysWritten (Sample.indexer "a") Sample.doubled w').ncard := by
  have hs : succeeded (Job.full.run (Sample.indexer "a") Sample.doubled).1 = true := by
    decide +kernel
  have hfound : (survey (Sample.indexer "a") Sample.doubled).toOption.map (fun xs =>
      (skippedOf xs, (unitLists xs).flatten.map (·.key))) =
        some ((["x.py", "x.py"] : List Text), [Sample.onlyKey, Sample.onlyKey]) := by
    decide +kernel
  obtain ⟨report, hrun, hsuccess⟩ := Job.exists_report hs
  obtain ⟨xs, hxs, htallied⟩ := tallied_of_success hrun hsuccess
  rw [hxs, Except.toOption, Option.map_some, Option.some.injEq, Prod.mk.injEq] at hfound
  obtain ⟨hskipped, hkeys⟩ := hfound
  have hinj := injOn_keysMet rfl hxs Sample.onlyKey (by simp [hkeys]) PointId.ofKey
  refine ⟨report, _, hrun, hsuccess, ?_, ?_⟩
  · intro hagree
    have hnodup := htallied.length_skippedFiles_iff.1 (by
      have hlength := length_unitLists_add_length_skippedOf xs
      rw [htallied.scanned, htallied.indexed] at hagree
      omega)
    rw [hskipped] at hnodup
    exact absurd hnodup (by decide)
  · intro hagree
    have hnodup := (ncard_eq_length_iff (mem_keysWritten hinj hrun hsuccess hxs)).1 (by
      rw [← hagree, htallied.units, List.length_map])
    rw [hkeys] at hnodup
    exact absurd hnodup (by decide)

end CodeAtlas.Pass
