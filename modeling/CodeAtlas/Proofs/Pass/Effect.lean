import CodeAtlas.Proofs.Pass.Runs

/-!
# What passes do to the points

A pass first finds items (`Job.Found`). Then it lays them over the points, batch after batch, and
last it deletes keys that it has listed (`Job.Pruned`). `Job.Ends` has the three ways in which this
can end, for every job:

* `early`: a failure before any item is known, the points being as before;
* `late`: a failure after some batches were written, nothing being deleted;
* `done`: all batches are written and the keys are deleted.

    exec (job.steps ix) (.start ix.project job.mode) w = ((answer, report), w') →
      job.Ends ix w answer report w'.client.points                                  (ends_of_exec)
-/

namespace CodeAtlas

open Collection VectorIndex

variable {σ : Type}

namespace Pass

/-! ## Stale keys -/

/-- The texts that are not among the items. -/
def staleTexts (stored : List Text) (items : List IndexItem) : List Text :=
  stored.filter fun key => !items.any (·.id == key)

theorem stale_nil (stored : List Value) : stale stored [] = stored := by simp [stale]

theorem texts_stale (stored : List Value) (items : List IndexItem) :
    texts (stale stored items) = staleTexts (texts stored) items := by
  unfold texts stale staleTexts
  rw [List.filter_filterMap, List.filterMap_filter]
  refine List.filterMap_congr fun key _ => ?_
  cases key with
  | text key =>
    have hsame : (items.any fun item => sameKey (.text item.id) (.text key)) =
        items.any (·.id == key) := by
      refine List.any_congr rfl fun item => ?_
      rw [Bool.eq_iff_iff, sameKey_text, Value.text.injEq, beq_iff_eq, eq_comm]
    simp [hsame, Value.text?, Option.filter]
  | _ => simp [Value.text?]

/-- Whether a key is no text that belongs to one of the files. -/
def isOutside (files : List Text) (key : Value) : Bool :=
  (key.text?.map (!CodeUnit.keyInFiles · files)).getD true

/-- Which file a key belongs to is asked only if there are files, and then of texts only. -/
theorem outside_eq (files : List Text) (keys : List Value) :
    outside files keys = if files.isEmpty || keys.all (·.text?.isSome) then
      .ok (keys.filter (isOutside files)) else .error .keyWithoutStart := by
  induction keys with
  | nil => simp [outside]
  | cons key keys ih =>
    cases key with
    | text text =>
      rw [outside, ih, List.all_cons]
      have hisText : (Value.text text).text?.isSome = true := rfl
      rw [hisText, Bool.true_and]
      split
      · by_cases hfile : CodeUnit.keyInFiles text files = true <;>
          simp [isOutside, Value.text?, hfile]
      · rfl
    | _ =>
      rw [List.all_cons]
      unfold outside
      rw [ih]
      cases files.isEmpty <;> simp [Value.text?] <;> rfl

theorem outside_error_iff {files : List Text} {keys : List Value} {e : Escape} :
    outside files keys = .error e ↔
      e = .keyWithoutStart ∧ files ≠ [] ∧ ∃ key ∈ keys, ∀ text, key ≠ .text text := by
  have htext : ∀ key : Value, key.text?.isSome = false ↔ ∀ text, key ≠ .text text := by
    intro key
    cases key <;> simp [Value.text?]
  rw [outside_eq]
  split
  · next h =>
    simp only [Bool.or_eq_true, List.isEmpty_iff, List.all_eq_true] at h
    simp only [reduceCtorEq, false_iff]
    rintro ⟨-, hfiles, key, hkey, hnone⟩
    have := h.resolve_left hfiles key hkey
    rw [(htext key).2 hnone] at this
    cases this
  · next h =>
    simp only [Bool.or_eq_true, List.isEmpty_iff, List.all_eq_true, not_or, not_forall,
      Bool.not_eq_true] at h
    obtain ⟨hfiles, key, hkey, hnone⟩ := h
    simp only [Except.error.injEq]
    exact ⟨fun he => ⟨he.symm, hfiles, key, hkey, (htext key).1 hnone⟩, fun h => h.1.symm⟩

theorem texts_outside {files : List Text} {keys gone : List Value}
    (h : outside files keys = .ok gone) :
    texts gone = (texts keys).filter (!CodeUnit.keyInFiles · files) := by
  rw [outside_eq] at h
  split at h <;> cases h
  unfold texts
  rw [List.filter_filterMap, List.filterMap_filter]
  refine List.filterMap_congr fun key _ => ?_
  cases key <;> simp [isOutside, Value.text?, Option.filter]

/-! ## Jobs -/

/-- What an indexer can be asked for. -/
inductive Job
  | full
  | file (path : SourcePath)
  | remove (path : SourcePath)

/-- What the file at a path gives, nothing if it is passed over. -/
def inspectOne (ix : Indexer σ) (w : Workspace σ) (path : SourcePath) :
    Except PassFailure (List Extracted) :=
  match ix.relative w.disk path with
  | .error e => .error (.escaped e)
  | .ok file =>
    if (Language.ofFile? path.name).isSome then
      match w.disk.isFile path.parts with
      | .error e => .error (.escaped (.lookup e))
      | .ok true => (extractFile ix w path file).map ([·])
      | .ok false => .ok []
    else .ok []

theorem inspectOne_ok {ix : Indexer σ} {w : Workspace σ} {path : SourcePath} {xs : List Extracted}
    (h : inspectOne ix w path = .ok xs) : ∃ file, ix.relative w.disk path = .ok file ∧
      (xs = [] ∨ ∃ x, xs = [x] ∧ extractFile ix w path file = .ok x) := by
  unfold inspectOne at h
  split at h
  · cases h
  · next file hrel =>
    refine ⟨file, hrel, ?_⟩
    split at h
    · split at h
      · cases h
      · cases hx : extractFile ix w path file with
        | error f => rw [hx] at h; cases h
        | ok x =>
          rw [hx] at h
          cases h
          exact .inr ⟨x, rfl, rfl⟩
      · cases h
        exact .inl rfl
    · cases h
      exact .inl rfl

namespace Job

def mode : Job → Mode
  | .full => .full
  | .file _ => .file
  | .remove _ => .remove

def steps (ix : Indexer σ) : Job → PassM σ Unit
  | .full => fullSteps ix
  | .file path => fileSteps ix path
  | .remove path => removeSteps ix path

def pass (ix : Indexer σ) : Job → Steps (Workspace σ) (Except Escape Report)
  | .full => Pass.full ix
  | .file path => Pass.file ix path
  | .remove path => Pass.remove ix path

/-- The result of a job and the workspace after it. -/
def run (job : Job) (ix : Indexer σ) (w : Workspace σ) : Except Escape Report × Workspace σ :=
  (job.pass ix).run w

/-- What the files that a job covers give. -/
def inspected (ix : Indexer σ) (w : Workspace σ) : Job → Except PassFailure (List Extracted)
  | .full => survey ix w
  | .file path => inspectOne ix w (ix.absolute path)
  | .remove _ => .ok []

/-- The units to embed. A full pass has no call for a file without units. -/
def lists : Job → List Extracted → List (List CodeUnit)
  | .full, xs => filled (unitLists xs)
  | .file _, xs | .remove _, xs => unitLists xs

/-- The points whose keys a job lists: those of the project, or those of one file. -/
def scope (ix : Indexer σ) (w : Workspace σ) : Job → Option PayloadFilter
  | .full => some (filterOf none (some (.text ix.project)))
  | .file path | .remove path =>
    (ix.relative w.disk (ix.absolute path)).toOption.map fun file =>
      filterOf (some (.text file)) none

/-- The file of a job that covers only one. -/
def file? (ix : Indexer σ) (w : Workspace σ) : Job → Option Text
  | .full => none
  | .file path | .remove path => (ix.relative w.disk (ix.absolute path)).toOption

/-- Whether a job lists the key of a point. -/
def Lists (job : Job) (ix : Indexer σ) (w : Workspace σ) (p : Point) : Prop :=
  ∃ filter, job.scope ix w = some filter ∧ filter.accepts p.payload = true

/-- Whether a job deletes keys, once it has written. -/
def prunes (ix : Indexer σ) : Job → List Extracted → Bool
  | .full, _ => ix.pruneStale
  | .file _, xs => ix.pruneStale && xs.any (·.units.toOption.isSome)
  | .remove _, _ => true

/-- Whether a key is kept though the job did not find it: a full pass keeps those of skipped
files. -/
def spares : Job → List Extracted → Text → Bool
  | .full, xs, key => CodeUnit.keyInFiles key (skippedOf xs)
  | .file _, _, _ | .remove _, _, _ => false

/-- The items that a job found, and their batches. -/
structure Found (job : Job) (ix : Indexer σ) (w : Workspace σ) (xs : List Extracted)
    (ps : List (CodeUnit × Embedding)) (batches : List (List IndexItem)) : Prop where
  inspected : job.inspected ix w = .ok xs
  embedded : ix.embedder.pairs (job.lists xs) w.embedding = some ps
  batched : Batch.batches? ix.index.batchSize (ps.map (itemOf ix.project w.now)) = some batches

/-- The units that a job finds with their vectors, none if it fails on the way. -/
def newPairs (job : Job) (ix : Indexer σ) (w : Workspace σ) : List (CodeUnit × Embedding) :=
  match job.inspected ix w with
  | .ok xs => (ix.embedder.pairs (job.lists xs) w.embedding).getD []
  | .error _ => []

/-- The items that a job has to write. -/
def newItems (job : Job) (ix : Indexer σ) (w : Workspace σ) : List IndexItem :=
  (job.newPairs ix w).map (itemOf ix.project w.now)

theorem Found.newPairs_eq {job : Job} {ix : Indexer σ} {w : Workspace σ} {xs : List Extracted}
    {ps : List (CodeUnit × Embedding)} {batches : List (List IndexItem)}
    (found : job.Found ix w xs ps batches) : job.newPairs ix w = ps := by
  rw [newPairs, found.inspected]
  simp only
  rw [found.embedded, Option.getD_some]

theorem Found.newItems_eq {job : Job} {ix : Indexer σ} {w : Workspace σ} {xs : List Extracted}
    {ps : List (CodeUnit × Embedding)} {batches : List (List IndexItem)}
    (found : job.Found ix w xs ps batches) :
    job.newItems ix w = ps.map (itemOf ix.project w.now) := by
  rw [newItems, found.newPairs_eq]

/-- The keys that a job deletes from points: those it lists, without those of the items and those
it spares. -/
inductive Pruned (job : Job) (ix : Indexer σ) (w : Workspace σ) (xs : List Extracted)
    (items : List IndexItem) (points : List Point) : List Text → Prop
  | kept (h : job.prunes ix xs = false) : Pruned job ix w xs items points []
  | pruned {filter : PayloadFilter} {stored : List Text} (h : job.prunes ix xs = true)
    (hs : job.scope ix w = some filter) (hl : Listed filter points stored) :
    Pruned job ix w xs items points ((staleTexts stored items).filter (!job.spares xs ·))

/-- A job that spares no key deletes all that it did not find again. -/
theorem Pruned.all {job : Job} {ix : Indexer σ} {w : Workspace σ} {xs : List Extracted}
    {items : List IndexItem} {points : List Point} {filter : PayloadFilter} {stored : List Text}
    (hspares : ∀ key, job.spares xs key = false) (h : job.prunes ix xs = true)
    (hs : job.scope ix w = some filter) (hl : Listed filter points stored) :
    job.Pruned ix w xs items points (staleTexts stored items) := by
  have hall : (staleTexts stored items).filter (!job.spares xs ·) = staleTexts stored items := by
    simp [hspares]
  exact hall ▸ .pruned h hs hl

/-- How a job can end: its answer, its report and the points afterwards. -/
inductive Ends (job : Job) (ix : Indexer σ) (w : Workspace σ) :
    Except PassFailure Unit → Report → List Point → Prop
  | early (f : PassFailure) (r : Report) (hf : f.isEarly = true) :
    Ends job ix w (.error f) r w.client.points
  | late {xs : List Extracted} {ps : List (CodeUnit × Embedding)} {batches : List (List IndexItem)}
    (found : job.Found ix w xs ps batches) (n : Nat) (f : PassFailure) (r : Report)
    (hf : f.isEarly = true → n = 0) :
    Ends job ix w (.error f) r (overlay w.client.points ((batches.take n).flatten.map pointOf))
  | done {xs : List Extracted} {ps : List (CodeUnit × Embedding)} {batches : List (List IndexItem)}
    {deleted : List Text} (found : job.Found ix w xs ps batches) (r : Report)
    (pruned : job.Pruned ix w xs (ps.map (itemOf ix.project w.now))
      (overlay w.client.points (batches.flatten.map pointOf)) deleted)
    (removed : r.staleRemoved = deleted.length)
    (skipped : ∀ file, file ∈ r.skippedFiles.map (·.1) ↔ file ∈ skippedOf xs) :
    Ends job ix w (.ok ()) r
      (without (overlay w.client.points (batches.flatten.map pointOf)) (deleted.map PointId.ofKey))

end Job

/-- A full pass lists the points of the project, any other job those of its file. -/
theorem Job.lists_iff {job : Job} {ix : Indexer σ} {w : Workspace σ} {p : Point} :
    job.Lists ix w p ↔ (job = .full ∧ p.holds "project" ix.project = true) ∨
      ∃ file, job.file? ix w = some file ∧ p.holds "file_path" file = true := by
  unfold Job.Lists
  cases job with
  | full => simp [Job.scope, Job.file?, Point.accepts_project]
  | file path => simp [Job.scope, Job.file?, Point.accepts_file]
  | remove path => simp [Job.scope, Job.file?, Point.accepts_file]

/-! ## Pruning -/

/-- Lists keys and deletes those that are picked from them. -/
def prune (ix : Indexer σ) (file project : Option Text)
    (pick : List Value → Except Escape (List Value)) : PassM σ Unit := do
  let stored ← keys ix file project
  let gone ← ExceptT.mk (pure ((pick stored).mapError .escaped))
  let removed ← delete ix gone
  note fun r => { r with staleRemoved := removed }

theorem exec_lift (answer : Except PassFailure α) (r : Report) (w : Workspace σ) :
    exec (ExceptT.mk (pure answer)) r w = ((answer, r), w) := rfl

theorem exec_pruneFile (ix : Indexer σ) (file : Text) (items : List IndexItem) (r : Report)
    (w : Workspace σ) : exec (pruneFile ix file items) r w =
      exec (prune ix (some file) none fun stored => .ok (stale stored items)) r w := by
  unfold pruneFile prune
  rw [exec_bind, exec_bind]
  split
  · rfl
  · rfl

theorem exec_pruneProject (ix : Indexer σ) (items : List IndexItem) (r : Report) (w : Workspace σ) :
    exec (pruneProject ix items) r w =
      exec (prune ix none (some ix.project) fun stored =>
        outside (r.skippedFiles.map (·.1)) (stale stored items)) r w := by
  unfold pruneProject prune
  rw [exec_bind, exec_bind]
  split
  · next stored r' w' h =>
    obtain ⟨rfl, -⟩ := exec_keys h
    rw [exec_bind, exec_report]
  · rfl

/-- What `pick` picks among keys, of the texts among them. If it fails, it does so late. -/
structure Picks (pick : List Value → Except Escape (List Value)) (among : List Text → List Text) :
    Prop where
  late : ∀ stored e, pick stored = .error e → (PassFailure.escaped e).isEarly = false
  texts_eq : ∀ stored gone, pick stored = .ok gone → texts gone = among (texts stored)

theorem picks_stale (items : List IndexItem) :
    Picks (fun stored => .ok (stale stored items)) (staleTexts · items) where
  late _ _ h := by cases h
  texts_eq stored _ h := by
    cases h
    exact texts_stale stored items

theorem picks_outside (files : List Text) (items : List IndexItem) :
    Picks (fun stored => outside files (stale stored items))
      fun stored => (staleTexts stored items).filter (!CodeUnit.keyInFiles · files) where
  late stored e h := by
    obtain ⟨rfl, -⟩ := outside_error_iff.1 h
    rfl
  texts_eq stored gone h := by rw [texts_outside h, texts_stale]

/-- Pruning deletes what is picked from the listed keys, or fails and changes no point. -/
theorem exec_prune {ix : Indexer σ} {file project : Option Text}
    {pick : List Value → Except Escape (List Value)} {among : List Text → List Text}
    (hpick : Picks pick among) {r r' : Report} {w w' : Workspace σ}
    {answer : Except PassFailure Unit}
    (h : exec (prune ix file project pick) r w = ((answer, r'), w')) :
    (∃ stored, Listed (filterOf (file.map .text) (project.map .text)) w.client.points stored ∧
        answer = .ok () ∧ r' = { r with staleRemoved := (among stored).length } ∧
        w'.client.points = without w.client.points ((among stored).map PointId.ofKey)) ∨
      ∃ f, answer = .error f ∧ f.isEarly = false ∧ w'.client.points = w.client.points := by
  unfold prune at h
  rw [exec_bind] at h
  split at h
  · next stored r1 w1 hk =>
    obtain ⟨rfl, hpts, hlisted, -⟩ := exec_keys hk
    rw [exec_bind, exec_lift] at h
    cases hgone : pick stored with
    | error e =>
      rw [hgone] at h
      cases h
      exact Or.inr ⟨_, rfl, hpick.late stored e hgone, hpts⟩
    | ok picked =>
      have hamong := hpick.texts_eq stored picked hgone
      rw [hgone] at h
      dsimp only [Except.mapError] at h
      rw [exec_bind] at h
      split at h
      · next removed r2 w2 hd =>
        cases h
        obtain ⟨rfl, ⟨gone, rfl, hn, hp⟩ | ⟨f, hn, -⟩⟩ := exec_delete hd
        · cases hn
          rw [texts_map_text] at hamong
          subst hamong
          exact Or.inl ⟨texts stored, hlisted stored rfl, rfl, rfl, by rw [hp, hpts]⟩
        · cases hn
      · next f r2 w2 hd =>
        cases h
        obtain ⟨rfl, ⟨gone, -, hn, -⟩ | ⟨f, hn, hf, hp⟩⟩ := exec_delete hd
        · cases hn
        · cases hn
          exact Or.inr ⟨f, rfl, hf, hp.trans hpts⟩
  · next f r1 w1 hk =>
    cases h
    obtain ⟨-, hpts, -, hf⟩ := exec_keys hk
    exact Or.inr ⟨f, rfl, hf f rfl, hpts⟩

/-! ## Writing -/

theorem groupKey?_itemOf (project now : Text) (p : CodeUnit × Embedding) :
    Batch.groupKey? (itemOf project now p) = some (.text p.1.filePath) := by
  have hf : (p.1.payload project now).get? "file_path" = some (.text p.1.filePath) := by
    simp [CodeUnit.payload, Fields.get?_cons]
  unfold Batch.groupKey? itemOf
  rw [hf]
  rfl

theorem exists_batches_items (size : Nat) (project now : Text)
    (ps : List (CodeUnit × Embedding)) :
    ∃ batches, Batch.batches? size (ps.map (itemOf project now)) = some batches := by
  apply Batch.exists_batches
  intro item hitem
  obtain ⟨p, -, rfl⟩ := List.mem_map.1 hitem
  rw [groupKey?_itemOf]
  rfl

/-- Items of units always have batches. -/
theorem exists_found {job : Job} {ix : Indexer σ} {w : Workspace σ} {xs : List Extracted}
    {ps : List (CodeUnit × Embedding)} (hi : job.inspected ix w = .ok xs)
    (hp : ix.embedder.pairs (job.lists xs) w.embedding = some ps) :
    ∃ batches, job.Found ix w xs ps batches := by
  obtain ⟨batches, hb⟩ := exists_batches_items ix.index.batchSize ix.project w.now ps
  exact ⟨batches, hi, hp, hb⟩

/-- Once the items are known, a job ends as its last part does, or late. -/
theorem ends_upsert {job : Job} {ix : Indexer σ} {w w1 w' : Workspace σ} {xs : List Extracted}
    {ps : List (CodeUnit × Embedding)} {batches : List (List IndexItem)} {rest : PassM σ Unit}
    {r1 r' : Report} {answer : Except PassFailure Unit} (found : job.Found ix w xs ps batches)
    (hw1 : w1.client = w.client)
    (hrest : ∀ w2, w2.client.points = overlay w.client.points (batches.flatten.map pointOf) →
      exec rest r1 w2 = ((answer, r'), w') → job.Ends ix w answer r' w'.client.points)
    (h : exec (do upsert ix (ps.map (itemOf ix.project w.now)); rest) r1 w1 = ((answer, r'), w')) :
    job.Ends ix w answer r' w'.client.points := by
  rw [exec_bind] at h
  split at h
  · next u r2 w2 hu =>
    obtain ⟨rfl, n, hpts, hn, -⟩ := exec_upsert found.batched hu
    refine hrest w2 ?_ h
    rw [hpts, hw1, List.take_of_length_le (hn rfl)]
  · next f r2 w2 hu =>
    cases h
    obtain ⟨rfl, n, hpts, -, hf⟩ := exec_upsert found.batched hu
    rw [hpts, hw1]
    exact .late found n f _ (hf f rfl)

/-- A failure while pruning comes late. -/
theorem ends_not_pruned {job : Job} {ix : Indexer σ} {w : Workspace σ} {xs : List Extracted}
    {ps : List (CodeUnit × Embedding)} {batches : List (List IndexItem)} {f : PassFailure}
    (found : job.Found ix w xs ps batches) (hf : f.isEarly = false) (r : Report) :
    job.Ends ix w (.error f) r (overlay w.client.points (batches.flatten.map pointOf)) := by
  have h := Job.Ends.late found batches.length f r (fun h => by rw [hf] at h; cases h)
  rwa [List.take_length] at h

/-! ## The three jobs -/

/-- Which keys belong to files depends on the files only. -/
theorem keyInFiles_congr {files files' : List Text} (h : ∀ file, file ∈ files ↔ file ∈ files')
    (key : Text) : CodeUnit.keyInFiles key files = CodeUnit.keyInFiles key files' := by
  unfold CodeUnit.keyInFiles
  rw [Bool.eq_iff_iff, List.any_eq_true, List.any_eq_true]
  simp only [h]

/-- The last part of a full pass, after its items were written. -/
theorem ends_full_rest {ix : Indexer σ} {w w2 w' : Workspace σ} {xs : List Extracted}
    {ps : List (CodeUnit × Embedding)} {batches : List (List IndexItem)} {total : Nat}
    {r r' : Report} {answer : Except PassFailure Unit} (found : Job.full.Found ix w xs ps batches)
    (hskipped : ∀ file, file ∈ r.skippedFiles.map (·.1) ↔ file ∈ skippedOf xs)
    (hzero : r.staleRemoved = 0)
    (hpts : w2.client.points = overlay w.client.points (batches.flatten.map pointOf))
    (h : exec (do
        note fun r => { r with unitsIndexed := (ps.map (itemOf ix.project w.now)).length }
        if ix.pruneStale then pruneProject ix (ps.map (itemOf ix.project w.now))
        step .turn do
          tell ⟨total, total, none, .indexed⟩
          return .ok ()) r w2 = ((answer, r'), w')) :
    Job.full.Ends ix w answer r' w'.client.points := by
  rw [exec_bind, exec_note] at h
  dsimp only at h
  split at h
  · next hprune =>
    rw [exec_bind] at h
    split at h
    · next u r3 w3 hp =>
      rw [exec_pruneProject] at hp
      cases h
      rcases exec_prune (picks_outside _ _) hp with ⟨stored, hlisted, -, hr, hp⟩ | ⟨f, hf, -⟩
      · have hpick : ∀ key, CodeUnit.keyInFiles key (r.skippedFiles.map (·.1)) =
            Job.full.spares xs key := keyInFiles_congr hskipped
        simp only [hpick] at hp hr
        rw [hpts] at hp hlisted
        show Job.full.Ends ix w _ _ w3.client.points
        rw [hp]
        exact .done found _ (.pruned hprune rfl hlisted) (by rw [hr]) (by rw [hr]; exact hskipped)
      · cases hf
    · next f r3 w3 hp =>
      rw [exec_pruneProject] at hp
      cases h
      rcases exec_prune (picks_outside _ _) hp with ⟨stored, -, ha, -⟩ | ⟨f, hf, hlate, hp⟩
      · cases ha
      · cases hf
        rw [hp, hpts]
        exact ends_not_pruned found hlate _
  · next hprune =>
    cases h
    have hd := Job.Ends.done found
      { r with unitsIndexed := (ps.map (itemOf ix.project w.now)).length }
      (.kept (Bool.eq_false_iff.2 hprune)) hzero hskipped
    rwa [List.map_nil, without_nil, ← hpts] at hd

theorem exec_scan (ix : Indexer σ) (r : Report) (w : Workspace σ) :
    exec (scan ix) r w = ((sourcePaths ix w, r), w) := rfl

theorem isEarly_sourcePaths {ix : Indexer σ} {w : Workspace σ} {f : PassFailure}
    (h : sourcePaths ix w = .error f) : f.isEarly = true := by
  unfold sourcePaths at h
  cases hs : Scan.sources w.disk ix.root ix.config with
  | error e =>
    rw [hs] at h
    cases h
    exact isEarly_scanFailure e
  | ok rels =>
    rw [hs] at h
    cases h

theorem staleRemoved_foldl (xs : List Extracted) (r : Report) :
    (xs.foldl noteFile r).staleRemoved = r.staleRemoved := by
  induction xs generalizing r with
  | nil => rfl
  | cons x xs ih =>
    rw [List.foldl_cons, ih]
    unfold noteFile
    split <;> rfl

theorem ends_full {ix : Indexer σ} {w w' : Workspace σ} {r' : Report}
    {answer : Except PassFailure Unit}
    (h : exec (fullSteps ix) (.start ix.project .full) w = ((answer, r'), w')) :
    Job.full.Ends ix w answer r' w'.client.points := by
  unfold fullSteps at h
  rw [exec_bind, exec_scan] at h
  cases hp : sourcePaths ix w with
  | error f =>
    rw [hp] at h
    cases h
    exact .early f _ (isEarly_sourcePaths hp)
  | ok paths =>
    rw [hp] at h
    dsimp only at h
    rw [exec_bind, exec_note] at h
    dsimp only at h
    rw [exec_bind] at h
    split at h
    · next lists r1 w1 hx =>
      obtain ⟨rfl, ⟨xs, hxs, ha, rfl⟩ | ⟨f, -, ha⟩⟩ := exec_extractAll hx
      · cases ha
        have hsurvey : Job.full.inspected ix w = .ok xs := by
          show survey ix w = .ok xs
          rw [survey, hp]
          exact hxs
        rw [exec_bind] at h
        split at h
        · next items r2 w2 he =>
          obtain ⟨rfl, ⟨s, rfl⟩, ⟨ps, hps, ha⟩ | ⟨f, ha, -⟩⟩ := exec_embedFiles he
          · cases ha
            obtain ⟨batches, found⟩ := exists_found hsurvey hps
            refine ends_upsert found (by rfl) (fun w2 hpts hrest => ?_) h
            exact ends_full_rest found (fun file => by simp [mem_skippedFiles, Report.start])
              (staleRemoved_foldl _ _) hpts hrest
          · cases ha
        · next f r2 w2 he =>
          cases h
          obtain ⟨rfl, ⟨s, rfl⟩, ⟨ps, -, ha⟩ | ⟨f, ha, hf, -⟩⟩ := exec_embedFiles he
          · cases ha
          · cases ha
            exact .early f _ hf
      · cases ha
    · next f r1 w1 hx =>
      cases h
      obtain ⟨rfl, ⟨xs, -, ha, -⟩ | ⟨f, hf, ha⟩⟩ := exec_extractAll hx
      · cases ha
      · cases ha
        obtain ⟨path, -, hpath⟩ := exists_of_mapM_error hf
        exact .early f _ (isEarly_inspect hpath)

theorem exec_locate (ix : Indexer σ) (path : SourcePath) (r : Report) (w : Workspace σ) :
    exec (locate ix path) r w =
      (((ix.relative w.disk (ix.absolute path)).mapError .escaped, r), w) := rfl

/-- A removal lists the keys of the file and deletes them. -/
theorem ends_remove {ix : Indexer σ} {path : SourcePath} {w w' : Workspace σ} {r' : Report}
    {answer : Except PassFailure Unit}
    (h : exec (removeSteps ix path) (.start ix.project .remove) w = ((answer, r'), w')) :
    (Job.remove path).Ends ix w answer r' w'.client.points := by
  unfold removeSteps at h
  rw [exec_bind, exec_locate] at h
  cases hrel : ix.relative w.disk (ix.absolute path) with
  | error e =>
    rw [hrel] at h
    cases h
    exact .early _ _ (isEarly_relative hrel)
  | ok file =>
    rw [hrel] at h
    have found : (Job.remove path).Found ix w [] [] [] := ⟨rfl, rfl, rfl⟩
    replace h : exec (pruneFile ix file []) (.start ix.project .remove) w = ((answer, r'), w') := by
      rw [← h]
      unfold pruneFile
      simp only [stale_nil]
      rfl
    rw [exec_pruneFile] at h
    rcases exec_prune (picks_stale []) h with ⟨stored, hl, rfl, hr, hp⟩ | ⟨f, rfl, hf, hp⟩
    · rw [hp]
      have hscope : (Job.remove path).scope ix w = some (filterOf (some (.text file)) none) := by
        simp [Job.scope, hrel, Except.toOption]
      have hpruned : (Job.remove path).Pruned ix w [] [] w.client.points (staleTexts stored []) :=
        .all (fun _ => rfl) rfl hscope hl
      exact .done found _ hpruned (by rw [hr]) (by rw [hr]; simp [Report.start, skippedOf])
    · rw [hp]
      exact ends_not_pruned found hf _

/-- The last part of the pass over one file, after its items were written. -/
theorem ends_file_rest {ix : Indexer σ} {path : SourcePath} {file : Text} {w w2 w' : Workspace σ}
    {x : Extracted} {ps : List (CodeUnit × Embedding)} {batches : List (List IndexItem)}
    {r r' : Report} {answer : Except PassFailure Unit} {units : List CodeUnit}
    (found : (Job.file path).Found ix w [x] ps batches) (hu : x.units = .ok units)
    (hrel : ix.relative w.disk (ix.absolute path) = .ok file)
    (hskipped : r.skippedFiles = []) (hzero : r.staleRemoved = 0)
    (hpts : w2.client.points = overlay w.client.points (batches.flatten.map pointOf))
    (h : exec (do
        note fun r =>
          { r with filesIndexed := 1, unitsIndexed := (ps.map (itemOf ix.project w.now)).length }
        if ix.pruneStale then pruneFile ix file (ps.map (itemOf ix.project w.now))) r w2 =
          ((answer, r'), w')) :
    (Job.file path).Ends ix w answer r' w'.client.points := by
  have hnone : skippedOf [x] = [] := by simp [skippedOf, hu, Except.toOption]
  have hprunes : (Job.file path).prunes ix [x] = ix.pruneStale := by
    simp [Job.prunes, hu, Except.toOption]
  rw [exec_bind, exec_note] at h
  dsimp only at h
  split at h
  · next hprune =>
    have hscope : (Job.file path).scope ix w = some (filterOf (some (.text file)) none) := by
      simp [Job.scope, hrel, Except.toOption]
    rw [exec_pruneFile] at h
    rcases exec_prune (picks_stale _) h with ⟨stored, hl, rfl, hr, hp⟩ | ⟨f, rfl, hf, hp⟩
    · rw [hpts] at hp hl
      rw [hp]
      refine .done found _ (.all (fun _ => rfl) (hprunes.trans hprune) hscope hl) (by rw [hr]) ?_
      rw [hr, hnone]
      simp [hskipped]
    · rw [hp, hpts]
      exact ends_not_pruned found hf _
  · next hprune =>
    cases h
    have hd := Job.Ends.done found
      { r with filesIndexed := 1, unitsIndexed := (ps.map (itemOf ix.project w.now)).length }
      (.kept (hprunes.trans (Bool.eq_false_iff.2 hprune))) hzero
      (by rw [hnone]; simp [hskipped])
    rwa [List.map_nil, without_nil, ← hpts] at hd

theorem exec_isSource (path : SourcePath) (r : Report) (w : Workspace σ) :
    exec (isSource path) r w = ((if (Language.ofFile? path.name).isSome then
      (w.disk.isFile path.parts).mapError fun e => .escaped (.lookup e) else .ok false, r), w) := rfl

theorem exec_extractOne (ix : Indexer σ) (path : SourcePath) (file : Text) (r : Report)
    (w : Workspace σ) :
    exec (extractOne ix path file) r w = ((extractFile ix w path file, r), w) := rfl

/-- A job that finds nothing ends with the points as they were. -/
theorem ends_nothing {path : SourcePath} {ix : Indexer σ} {w : Workspace σ} {xs : List Extracted}
    {r : Report} (hi : (Job.file path).inspected ix w = .ok xs) (hx : unitLists xs = [])
    (hzero : r.staleRemoved = 0)
    (hskipped : ∀ file, file ∈ r.skippedFiles.map (·.1) ↔ file ∈ skippedOf xs) :
    (Job.file path).Ends ix w (.ok ()) r w.client.points := by
  have found : (Job.file path).Found ix w xs [] [] := by
    refine ⟨hi, ?_, rfl⟩
    show ix.embedder.pairs (unitLists xs) _ = some []
    rw [hx]
    rfl
  have hnone : (Job.file path).prunes ix xs = false := by
    have : xs.any (·.units.toOption.isSome) = false := by
      rw [List.any_eq_false]
      intro x hxm hsome
      obtain ⟨units, hunits⟩ := Option.isSome_iff_exists.1 hsome
      have hmem : units ∈ unitLists xs := List.mem_filterMap.2 ⟨x, hxm, hunits⟩
      rw [hx] at hmem
      cases hmem
    simp [Job.prunes, this]
  have hd := Job.Ends.done found r (.kept hnone) hzero hskipped
  rwa [List.map_nil, without_nil] at hd

/-- The pass over a file that is there, from its extraction on. -/
theorem ends_source {ix : Indexer σ} {path : SourcePath} {file : Text} {w w' : Workspace σ}
    {r' : Report} {answer : Except PassFailure Unit}
    (hi : (Job.file path).inspected ix w = (extractFile ix w (ix.absolute path) file).map ([·]))
    (hrel : ix.relative w.disk (ix.absolute path) = .ok file)
    (h : exec (do
        note fun r => { r with filesScanned := 1 }
        match (← extractOne ix (ix.absolute path) file).units with
        | .error reason => note fun r => { r.skipFile file reason with skipped := true }
        | .ok units => store ix file units) (.start ix.project .file) w = ((answer, r'), w')) :
    (Job.file path).Ends ix w answer r' w'.client.points := by
  rw [exec_bind, exec_note] at h
  dsimp only at h
  rw [exec_bind, exec_extractOne] at h
  cases hx : extractFile ix w (ix.absolute path) file with
  | error f =>
    rw [hx] at h
    cases h
    exact .early f _ (isEarly_extractFile hx)
  | ok x =>
    rw [hx] at h hi
    dsimp only at h
    split at h
    · next reason hu =>
      cases h
      refine ends_nothing hi (by simp [unitLists, hu, Except.toOption]) rfl fun other => ?_
      simp [skippedOf, hu, Except.toOption, Report.start, Report.skipFile, Report.setReason,
        (extractFile_ok hx).1]
    · next units hu =>
      unfold store at h
      rw [exec_bind] at h
      have hlists : (Job.file path).lists [x] = [units] := by
        simp [Job.lists, unitLists, hu, Except.toOption]
      split at h
      · next items r2 w2 he =>
        obtain ⟨rfl, ⟨s, rfl⟩, ⟨ps, hps, ha⟩ | ⟨f, ha, -⟩⟩ := exec_embedFiles he
        · cases ha
          obtain ⟨batches, found⟩ := exists_found hi (hlists ▸ hps)
          refine ends_upsert found (by rfl) (fun w2 hpts hrest => ?_) h
          exact ends_file_rest found hu hrel rfl rfl hpts hrest
        · cases ha
      · next f r2 w2 he =>
        cases h
        obtain ⟨rfl, ⟨s, rfl⟩, ⟨ps, -, ha⟩ | ⟨f, ha, hf, -⟩⟩ := exec_embedFiles he
        · cases ha
        · cases ha
          exact .early f _ hf

theorem ends_file {ix : Indexer σ} {path : SourcePath} {w w' : Workspace σ} {r' : Report}
    {answer : Except PassFailure Unit}
    (h : exec (fileSteps ix path) (.start ix.project .file) w = ((answer, r'), w')) :
    (Job.file path).Ends ix w answer r' w'.client.points := by
  unfold fileSteps at h
  rw [exec_bind, exec_locate] at h
  cases hrel : ix.relative w.disk (ix.absolute path) with
  | error e =>
    rw [hrel] at h
    cases h
    exact .early _ _ (isEarly_relative hrel)
  | ok file =>
    rw [hrel] at h
    have hinspected : (Job.file path).inspected ix w =
        if (Language.ofFile? (ix.absolute path).name).isSome then
          match w.disk.isFile (ix.absolute path).parts with
          | .error e => .error (.escaped (.lookup e))
          | .ok true => (extractFile ix w (ix.absolute path) file).map ([·])
          | .ok false => .ok []
        else .ok [] := by
      show inspectOne ix w (ix.absolute path) = _
      rw [inspectOne, hrel]
    dsimp only [Except.mapError] at h
    rw [exec_bind, exec_isSource] at h
    by_cases hlang : (Language.ofFile? (ix.absolute path).name).isSome = true
    · rw [if_pos hlang] at h hinspected
      cases hfile : w.disk.isFile (ix.absolute path).parts with
      | error e =>
        rw [hfile] at h
        cases h
        exact .early _ _ rfl
      | ok present =>
        rw [hfile] at h hinspected
        cases present with
        | false =>
          cases h
          exact ends_nothing hinspected rfl rfl fun _ => Iff.rfl
        | true => exact ends_source hinspected hrel h
    · rw [if_neg hlang] at h hinspected
      cases h
      exact ends_nothing hinspected rfl rfl fun _ => Iff.rfl

/-- Every job ends early, late or done. -/
theorem ends_of_exec {job : Job} {ix : Indexer σ} {w w' : Workspace σ} {report : Report}
    {answer : Except PassFailure Unit}
    (h : exec (job.steps ix) (.start ix.project job.mode) w = ((answer, report), w')) :
    job.Ends ix w answer report w'.client.points := by
  cases job with
  | full => exact ends_full h
  | file path => exact ends_file h
  | remove path => exact ends_remove h

end Pass

/-! ## Results -/

/-- What becomes of a failure as the result of a pass. -/
def PassFailure.result (r : Report) : PassFailure → Except Escape Report
  | .escaped e => .error e
  | .reported e => .ok (r.fail e.message)

namespace Pass

/-- Whether a pass ended with a report of success. -/
def succeeded : Except Escape Report → Bool
  | .ok report => report.success
  | .error _ => false

theorem succeeded_result (f : PassFailure) (r : Report) : succeeded (f.result r) = false := by
  cases f <;> rfl

namespace Job

/-- The failure that ends a job, if one does. -/
def failure? (job : Job) (ix : Indexer σ) (w : Workspace σ) : Option PassFailure :=
  match (exec (job.steps ix) (.start ix.project job.mode) w).1.1 with
  | .error f => some f
  | .ok _ => none

theorem keepsError_steps (job : Job) (ix : Indexer σ) : KeepsError (job.steps ix) := by
  cases job with
  | full =>
    refine keepsError_bind (keepsError_step _ _) fun files => ?_
    refine keepsError_bind (keepsError_note fun _ => rfl) fun _ => ?_
    refine keepsError_bind (keepsError_extractAll ix _ _ _) fun lists => ?_
    refine keepsError_bind (keepsError_embedFiles ix lists) fun items => ?_
    refine keepsError_bind (keepsError_upsert ix items) fun _ => ?_
    refine keepsError_bind (keepsError_note fun _ => rfl) fun _ => ?_
    dsimp only
    split
    · refine keepsError_bind ?_ fun _ => keepsError_step _ _
      refine keepsError_bind (keepsError_keys ix _ _) fun _ => ?_
      refine keepsError_bind (fun _ _ => rfl) fun _ => ?_
      refine keepsError_bind (fun _ _ => rfl) fun _ => ?_
      exact keepsError_bind (keepsError_delete ix _) fun _ => keepsError_note fun _ => rfl
    · exact keepsError_step _ _
  | file path =>
    refine keepsError_bind (keepsError_step _ _) fun file => ?_
    refine keepsError_bind (keepsError_step _ _) fun present => ?_
    split
    · refine keepsError_bind (keepsError_note fun _ => rfl) fun _ => ?_
      refine keepsError_bind (keepsError_step _ _) fun x => ?_
      split
      · exact keepsError_note fun _ => rfl
      · refine keepsError_bind (keepsError_embedFiles ix _) fun items => ?_
        refine keepsError_bind (keepsError_upsert ix items) fun _ => ?_
        refine keepsError_bind (keepsError_note fun _ => rfl) fun _ => ?_
        split
        · refine keepsError_bind (keepsError_keys ix _ _) fun _ => ?_
          exact keepsError_bind (keepsError_delete ix _) fun _ => keepsError_note fun _ => rfl
        · exact keepsError_pure _
    · exact keepsError_note fun _ => rfl
  | remove path =>
    refine keepsError_bind (keepsError_step _ _) fun file => ?_
    refine keepsError_bind (keepsError_keys ix _ _) fun _ => ?_
    exact keepsError_bind (keepsError_delete ix _) fun _ => keepsError_note fun _ => rfl

/-- A pass says that it failed only if it leaves a report. -/
theorem outcome_run (first : Report) (onError : StateM (Workspace σ) Unit) (m : PassM σ Unit)
    (w : Workspace σ) :
    (outcome first onError m).run w = match exec m first w with
      | ((.ok _, report), w') => (.ok report, w')
      | ((.error (.escaped e), _), w') => (.error e, w')
      | ((.error (.reported e), report), w') =>
        (.ok (report.fail e.message), (onError.run w').run.2) := by
  unfold outcome exec
  rw [Steps.run_bind]
  rcases (m.run.run first).run w with ⟨⟨answer, report⟩, w'⟩
  cases answer with
  | ok _ => rfl
  | error f => cases f <;> rfl

/-- The result of a pass is its report, or what becomes of its failure. -/
theorem run_outcome {first : Report} {onError : StateM (Workspace σ) Unit} {m : PassM σ Unit}
    {w w' : Workspace σ} {result : Except Escape Report}
    (hclient : ∀ w, (onError.run w).run.2.client = w.client)
    (h : (outcome first onError m).run w = (result, w')) :
    ∃ answer report w1, exec m first w = ((answer, report), w1) ∧ w'.client = w1.client ∧
      (answer = .ok () ∧ result = .ok report ∨
        ∃ f, answer = .error f ∧ result = f.result report) := by
  rw [outcome_run] at h
  rcases hm : exec m first w with ⟨⟨answer, report⟩, w1⟩
  rw [hm] at h
  refine ⟨answer, report, w1, rfl, ?_⟩
  cases answer with
  | ok u =>
    cases h
    exact ⟨rfl, Or.inl ⟨rfl, rfl⟩⟩
  | error f =>
    cases f with
    | escaped e =>
      cases h
      exact ⟨rfl, Or.inr ⟨_, rfl, rfl⟩⟩
    | reported e =>
      cases h
      exact ⟨hclient w1, Or.inr ⟨_, rfl, rfl⟩⟩

/-- Every run of a job ends in one of its ways, with the result that goes with it. -/
theorem run_cases {job : Job} {ix : Indexer σ} {w w' : Workspace σ} {result : Except Escape Report}
    (h : job.run ix w = (result, w')) :
    ∃ answer report, job.Ends ix w answer report w'.client.points ∧ report.error = none ∧
      (answer = .ok () ∧ result = .ok report ∧ job.failure? ix w = none ∨
        ∃ f, answer = .error f ∧ result = f.result report ∧ job.failure? ix w = some f) := by
  have hrun : ∃ answer report w1, exec (job.steps ix) (.start ix.project job.mode) w =
      ((answer, report), w1) ∧ w'.client = w1.client ∧
      (answer = .ok () ∧ result = .ok report ∨
        ∃ f, answer = .error f ∧ result = f.result report) := by
    cases job with
    | full => exact run_outcome (fun _ => rfl) h
    | file path => exact run_outcome (fun _ => rfl) h
    | remove path => exact run_outcome (fun _ => rfl) h
  obtain ⟨answer, report, w1, hexec, hclient, hres⟩ := hrun
  refine ⟨answer, report, hclient ▸ ends_of_exec hexec, (keepsError_steps job ix).eq hexec, ?_⟩
  rcases hres with ⟨rfl, hr⟩ | ⟨f, rfl, hr⟩
  · exact Or.inl ⟨rfl, hr, by rw [failure?, hexec]⟩
  · exact Or.inr ⟨f, rfl, hr, by rw [failure?, hexec]⟩

theorem exists_report {job : Job} {ix : Indexer σ} {w : Workspace σ}
    (h : succeeded (job.run ix w).1 = true) :
    ∃ report, job.run ix w = (.ok report, (job.run ix w).2) ∧ report.success = true := by
  cases hr : job.run ix w with
  | mk result w' =>
    rw [hr] at h
    cases result with
    | error e => cases h
    | ok report => exact ⟨report, rfl, h⟩

/-- A job that succeeds is done. -/
theorem run_succeeded {job : Job} {ix : Indexer σ} {w w' : Workspace σ} {report : Report}
    (h : job.run ix w = (.ok report, w')) (hs : report.success = true) :
    job.Ends ix w (.ok ()) report w'.client.points := by
  obtain ⟨answer, r, hends, -, ⟨rfl, hr, -⟩ | ⟨f, rfl, hr, -⟩⟩ := run_cases h
  · cases hr
    exact hends
  · have : succeeded (f.result r) = true := hr ▸ hs
    rw [succeeded_result] at this
    cases this

/-- A job that does not succeed has failed. -/
theorem run_failed {job : Job} {ix : Indexer σ} {w w' : Workspace σ} {result : Except Escape Report}
    (h : job.run ix w = (result, w')) (hs : succeeded result = false) :
    ∃ f report, job.failure? ix w = some f ∧ result = f.result report ∧
      job.Ends ix w (.error f) report w'.client.points := by
  obtain ⟨answer, r, hends, herr, ⟨rfl, rfl, -⟩ | ⟨f, rfl, hr, hf⟩⟩ := run_cases h
  · simp [succeeded, Report.success, herr] at hs
  · exact ⟨f, r, hf, hr, hends⟩

end Job

/-! ## Small projects -/

namespace Sample

/-- A grammar in which every file is one function. -/
def grammars : Extract.Grammars := fun _ =>
  .ok fun source => ⟨.node "function_definition" none ⟨0, source.length, 0, 0⟩ [], false⟩

/-- An embedder that counts characters. -/
def embedder : Embedder Unit :=
  ⟨false, fun texts => pure (.ok (texts.map fun text => [(text.length : Rat)]))⟩

/-- The indexer of the project in the folder `name`. -/
def indexer (name : Text) : Indexer Unit where
  root := ⟨.single, [name]⟩
  config := .dict []
  extraction := ⟨.ordinal, true⟩
  pruneStale := true
  maxConcurrency := 1
  embedder := embedder
  index := ⟨.text "code", 64⟩

/-- The projects `a` and `b` with a file each. -/
def disk : Disk :=
  ⟨.folder [
    ("a", .folder [("m.py", .file [0x66, 0x66])]), ("b", .folder [("n.py", .file [0x67])])],
    [], [], []⟩

/-- A workspace on both projects. -/
def workspace (client : Client) : Workspace Unit := ⟨disk, grammars, (), client, "today", []⟩

/-- The path of a file as seen from its project. -/
def path (name : Text) : SourcePath := ⟨.relative, [name]⟩

/-- The workspace after the project `b` was indexed into an empty store. -/
def indexed : Workspace Unit := (Job.full.run (indexer "b") (workspace (.fresh (.text "code")))).2

theorem indexed_points : ∃ p, indexed.client.points = [p] ∧ p.project? = some ("/b" : Text) := by
  have hone : indexed.client.points.length = 1 := by decide +kernel
  have hall : ∀ p ∈ indexed.client.points, p.project? = some ("/b" : Text) := by decide +kernel
  obtain ⟨p, hp⟩ := List.length_eq_one_iff.1 hone
  exact ⟨p, hp, hall p (by rw [hp]; exact List.mem_singleton_self p)⟩

/-- A grammar in which every byte is a function that it names. -/
def letters : Extract.Grammars := fun _ => .ok fun source =>
  ⟨.node "module" none ⟨0, source.length, 0, 0⟩ ((List.range source.length).map fun (i : Nat) =>
    .node "function_definition" none ⟨i, i + 1, 0, 0⟩
      [.node "identifier" (some "name") ⟨i, i + 1, 0, 0⟩ []]), false⟩

/-- The project `a` with these files, beside the project `b`. -/
def disksOf (files : List (Text × List UInt8)) : Disk :=
  ⟨.folder [
    ("a", .folder (files.map fun (name, content) => (name, .file content))),
    ("b", .folder [("n.py", .file [0x67])])], [], [], []⟩

/-- A workspace on these files, in which every byte is a function. -/
def lettered (files : List (Text × List UInt8)) (client : Client) : Workspace Unit :=
  ⟨disksOf files, letters, (), client, "today", []⟩

end Sample

end Pass

end CodeAtlas
