import CodeAtlas.Pass.File
import CodeAtlas.Pass.Full
import CodeAtlas.Proofs.File.Sources
import CodeAtlas.Proofs.Store.Listing
import CodeAtlas.Proofs.Unit.Key

/-!
# Runs of the steps of a pass

Work of a pass, run to its end, gives an answer, a report and a workspace (`exec`). Each step has
one lemma that says all it does: scanning and extracting read the disk (`survey`), embedding asks
the embedder file after file (`Embedder.pairs`), and only the calls of the index change the points.

No step writes an error into the report (`KeepsError`): that is done when a pass ends.
-/

namespace CodeAtlas

namespace Pass

variable {σ α β : Type}

/-- The answer, the report and the workspace that work of a pass ends with. -/
def exec (m : PassM σ α) (r : Report) (w : Workspace σ) :
    (Except PassFailure α × Report) × Workspace σ :=
  (m.run.run r).run w

@[simp] theorem exec_pure (a : α) (r : Report) (w : Workspace σ) :
    exec (pure a) r w = ((.ok a, r), w) := rfl

@[simp] theorem exec_note (f : Report → Report) (r : Report) (w : Workspace σ) :
    exec (note f) r w = ((.ok ⟨⟩, f r), w) := rfl

@[simp] theorem exec_report (r : Report) (w : Workspace σ) :
    exec (getThe Report) r w = ((.ok r, r), w) := rfl

@[simp] theorem exec_step (await : Await) (m : StateM (Workspace σ) (Except PassFailure α))
    (r : Report) (w : Workspace σ) :
    exec (step await m) r w = (((m.run w).run.1, r), (m.run w).run.2) := rfl

/-- What comes second runs only after success. -/
theorem exec_bind (m : PassM σ α) (f : α → PassM σ β) (r : Report) (w : Workspace σ) :
    exec (m >>= f) r w = match exec m r w with
      | ((.ok a, r'), w') => exec (f a) r' w'
      | ((.error e, r'), w') => ((.error e, r'), w') := by
  unfold exec
  rw [ExceptT.run_bind, StateT.run_bind, Steps.run_bind]
  cases (m.run.run r).run w with
  | mk answer w' =>
    obtain ⟨answer, r'⟩ := answer
    cases answer <;> rfl

/-! ## Reports without errors -/

/-- Leaves the error of the report as it is. -/
def KeepsError (m : PassM σ α) : Prop := ∀ r w, (exec m r w).1.2.error = r.error

theorem KeepsError.eq {m : PassM σ α} (hm : KeepsError m) {r r' : Report} {w w' : Workspace σ}
    {answer : Except PassFailure α} (h : exec m r w = ((answer, r'), w')) : r'.error = r.error := by
  have := hm r w
  rwa [h] at this

theorem keepsError_pure (a : α) : KeepsError (pure a : PassM σ α) := fun _ _ => rfl

theorem keepsError_step (await : Await) (m : StateM (Workspace σ) (Except PassFailure α)) :
    KeepsError (step await m) := fun _ _ => rfl

theorem keepsError_note {f : Report → Report} (hf : ∀ r, (f r).error = r.error) :
    KeepsError (note f : PassM σ Unit) := fun r _ => hf r

theorem keepsError_bind {m : PassM σ α} {f : α → PassM σ β} (hm : KeepsError m)
    (hf : ∀ a, KeepsError (f a)) : KeepsError (m >>= f) := by
  intro r w
  rw [exec_bind]
  split
  · next a r' w' h => rw [hf a r' w', hm.eq h]
  · next e r' w' h => exact hm.eq h

theorem keepsError_mapM {f : α → PassM σ β} (hf : ∀ a, KeepsError (f a)) (as : List α) :
    KeepsError (as.mapM f) := by
  induction as with
  | nil => exact keepsError_pure _
  | cons a as ih =>
    rw [List.mapM_cons]
    exact keepsError_bind (hf a) fun _ => keepsError_bind ih fun _ => keepsError_pure _

theorem keepsError_extractAll (ix : Indexer σ) (done total : Nat) (paths : List SourcePath) :
    KeepsError (extractAll ix done total paths) := by
  induction paths generalizing done with
  | nil => exact keepsError_pure _
  | cons path rest ih =>
    refine keepsError_bind (keepsError_step _ _) fun found => ?_
    split
    · exact keepsError_bind (keepsError_note fun _ => rfl) fun _ => ih _
    · exact keepsError_bind (keepsError_note fun _ => rfl) fun _ =>
        keepsError_bind (ih _) fun _ => keepsError_pure _

theorem keepsError_embedFiles (ix : Indexer σ) (files : List (List CodeUnit)) :
    KeepsError (embedFiles ix files) :=
  keepsError_bind (keepsError_mapM (fun _ => keepsError_step _ _) files) fun _ => keepsError_pure _

theorem keepsError_upsert (ix : Indexer σ) (items : List IndexItem) :
    KeepsError (upsert ix items) := by
  unfold upsert
  split
  · exact keepsError_pure _
  · exact keepsError_step _ _

theorem keepsError_keys (ix : Indexer σ) (file project : Option Text) :
    KeepsError (keys ix file project) :=
  keepsError_step _ _

theorem keepsError_throw (f : PassFailure) : KeepsError (throw f : PassM σ α) := fun _ _ => rfl

theorem keepsError_delete (ix : Indexer σ) (keys : List Value) : KeepsError (delete ix keys) := by
  unfold delete
  split
  · exact keepsError_throw _
  · dsimp only
    split
    · exact keepsError_bind (keepsError_step _ _) fun _ => keepsError_pure _
    · exact keepsError_pure _

end Pass

/-! ## Early failures -/

/-- Whether a failure comes before anything is written: from the scan, from reading a file, from
the embedder or from the check of dimensions. Stored keys are looked at after writing. -/
def PassFailure.isEarly : PassFailure → Bool
  | .escaped .keyWithoutStart | .escaped .keysWithoutOrder => false
  | .escaped _ | .reported (.source _) | .reported (.embed _) => true
  | .reported (.store e) => e.isDimension

namespace Pass

variable {σ : Type}

theorem isEarly_scanFailure (e : Scan.Error) : (scanFailure e).isEarly = true := by
  cases e <;> rfl

/-! ## Finding units -/

/-- What a file of the project gives. -/
def inspect (ix : Indexer σ) (w : Workspace σ) (path : SourcePath) : Except PassFailure Extracted :=
  match ix.relative w.disk path with
  | .error e => .error (.escaped e)
  | .ok file => extractFile ix w path file

/-- The paths of the project's source files. -/
def sourcePaths (ix : Indexer σ) (w : Workspace σ) : Except PassFailure (List SourcePath) :=
  ((Scan.sources w.disk ix.root ix.config).mapError scanFailure).map fun rels =>
    rels.map fun rel => ix.root.join ⟨.relative, rel⟩

/-- What the source files of the project give, in the order of the scan. -/
def survey (ix : Indexer σ) (w : Workspace σ) : Except PassFailure (List Extracted) := do
  (← sourcePaths ix w).mapM (inspect ix w)

/-- The units of the files that were not skipped, file by file. -/
def unitLists (xs : List Extracted) : List (List CodeUnit) := xs.filterMap (·.units.toOption)

/-- The lists that are not empty. -/
def filled (lists : List (List CodeUnit)) : List (List CodeUnit) := lists.filter (!·.isEmpty)

/-- The files that were skipped. -/
def skippedOf (xs : List Extracted) : List Text :=
  (xs.filter (·.units.toOption.isNone)).map (·.file)

/-- Notes what became of a file. -/
def noteFile (r : Report) (x : Extracted) : Report :=
  match x.units with
  | .error reason => r.skipFile x.file reason
  | .ok _ => { r with filesIndexed := r.filesIndexed + 1 }

theorem isEarly_unitsOf {found : Except Extract.Error (List CodeUnit)} {f : PassFailure}
    (h : unitsOf found = .error f) : f.isEarly = true := by
  unfold unitsOf at h
  split at h <;> cases h <;> rfl

theorem isEarly_extractFile {ix : Indexer σ} {w : Workspace σ} {path : SourcePath} {file : Text}
    {f : PassFailure} (h : extractFile ix w path file = .error f) : f.isEarly = true := by
  unfold extractFile at h
  split at h
  · cases h; rfl
  · dsimp only at h
    cases hu : unitsOf (Extract.extractBytes Language.catalog w.grammars ix.extraction _
      ((Language.ofFile? path.name).getD "") file) with
    | error f' =>
      rw [hu] at h
      cases h
      exact isEarly_unitsOf hu
    | ok units =>
      rw [hu] at h
      cases h

/-- A file that was read gives its own path, and so do its units. -/
theorem extractFile_ok {ix : Indexer σ} {w : Workspace σ} {path : SourcePath} {file : Text}
    {x : Extracted} (h : extractFile ix w path file = .ok x) :
    x.file = file ∧ ∀ units, x.units = .ok units → ∀ u ∈ units, u.filePath = file := by
  unfold extractFile at h
  split at h
  · cases h
  · dsimp only at h
    unfold unitsOf at h
    split at h
    · next units hunits =>
      cases h
      refine ⟨rfl, ?_⟩
      rintro _ ⟨⟩ u hu
      exact Extract.filePath_of_mem_extractBytes hunits hu
    · cases h
    · cases h
    · cases h
      exact ⟨rfl, nofun⟩

theorem inspect_ok {ix : Indexer σ} {w : Workspace σ} {path : SourcePath} {x : Extracted}
    (h : inspect ix w path = .ok x) :
    ∀ units, x.units = .ok units → ∀ u ∈ units, u.filePath = x.file := by
  unfold inspect at h
  split at h
  · cases h
  · obtain ⟨hfile, hunits⟩ := extractFile_ok h
    rw [hfile]
    exact hunits

/-- A path that cannot be seen from the project is found out before anything is written. -/
theorem isEarly_relative {ix : Indexer σ} {disk : Disk} {path : SourcePath} {e : Escape}
    (h : ix.relative disk path = .error e) : (PassFailure.escaped e).isEarly = true := by
  unfold Indexer.relative withoutLinks at h
  cases hr : disk.resolve path with
  | ok p =>
    rw [hr] at h
    cases h
  | error e' =>
    rw [hr] at h
    cases e' <;> cases h <;> rfl

theorem isEarly_inspect {ix : Indexer σ} {w : Workspace σ} {path : SourcePath} {f : PassFailure}
    (h : inspect ix w path = .error f) : f.isEarly = true := by
  unfold inspect at h
  split at h
  · next e he =>
    cases h
    exact isEarly_relative he
  · exact isEarly_extractFile h

/-- The names of the files that extraction tells of: it stops at the first file that it cannot
extract, of which it tells if it can name it. -/
def namesTold (ix : Indexer σ) (w : Workspace σ) : List SourcePath → List Text
  | [] => []
  | path :: rest =>
    match ix.relative w.disk path, inspect ix w path with
    | .error _, _ => []
    | .ok name, .error _ => [name]
    | .ok name, .ok _ => name :: namesTold ix w rest

/-- Which files are told of does not depend on what was told before. -/
theorem namesTold_events (ix : Indexer σ) (w : Workspace σ) (events : List Progress)
    (paths : List SourcePath) :
    namesTold ix { w with events := events } paths = namesTold ix w paths := by
  induction paths with
  | nil => rfl
  | cons path rest ih =>
    unfold namesTold
    rw [ih]
    rfl

/-- What is told of files when `done` of `total` files came before them. -/
def filesTold (done total : Nat) (names : List Text) : List Progress :=
  names.mapIdx fun i name => ⟨done + i, total, some name, .indexing⟩

@[simp] theorem filesTold_nil (done total : Nat) : filesTold done total [] = [] := rfl

theorem filesTold_cons (done total : Nat) (name : Text) (rest : List Text) :
    filesTold done total (name :: rest) =
      ⟨done, total, some name, .indexing⟩ :: filesTold (done + 1) total rest := by
  unfold filesTold
  rw [List.mapIdx_cons]
  simp only [Nat.add_zero, Nat.add_assoc, Nat.add_comm 1]

theorem indexing_of_mem_filesTold {done total : Nat} {names : List Text} {p : Progress}
    (h : p ∈ filesTold done total names) : p.status = .indexing := by
  obtain ⟨i, hi, rfl⟩ := List.mem_mapIdx.1 h
  rfl

/-- A file is told of before it is read. -/
theorem exec_extractNext (ix : Indexer σ) (done total : Nat) (path : SourcePath) (r : Report)
    (w : Workspace σ) : exec (extractNext ix done total path) r w =
      ((inspect ix w path, r), match ix.relative w.disk path with
        | .error _ => w
        | .ok name => { w with events := w.events ++ [⟨done, total, some name, .indexing⟩] }) := by
  unfold extractNext inspect
  rw [exec_step]
  cases h : ix.relative w.disk path with
  | error e => simp [h]
  | ok file => simp [h, tell]

/-- A file that can be extracted is noted, and its units come first. -/
theorem exec_extractAll_cons {ix : Indexer σ} {w : Workspace σ} {path : SourcePath} {name : Text}
    {x : Extracted} (hname : ix.relative w.disk path = .ok name) (hx : inspect ix w path = .ok x)
    (done total : Nat) (rest : List SourcePath) (r : Report) :
    exec (extractAll ix done total (path :: rest)) r w =
      match exec (extractAll ix (done + 1) total rest) (noteFile r x)
        { w with events := w.events ++ [⟨done, total, some name, .indexing⟩] } with
      | ((.ok more, r'), w') => ((.ok (filled (unitLists [x]) ++ more), r'), w')
      | ((.error f, r'), w') => ((.error f, r'), w') := by
  rw [extractAll, exec_bind, exec_extractNext, hx, hname]
  dsimp only
  unfold noteFile
  cases hu : x.units with
  | error reason =>
    have hnone : filled (unitLists [x]) = [] := by simp [filled, unitLists, hu, Except.toOption]
    simp only [exec_bind, exec_note, hnone, List.nil_append]
    split
    · next h => rw [h]
    · next h => rw [h]
  | ok units =>
    have hone : filled (unitLists [x]) = if units.isEmpty then [] else [units] := by
      by_cases he : units.isEmpty = true <;> simp [filled, unitLists, hu, Except.toOption, he]
    simp only [exec_bind, exec_note, hone]
    split
    · next more r' w' h =>
      rw [h]
      by_cases he : units.isEmpty = true <;> simp [he]
    · next h => rw [h]

/-- Extracting the files in turn gives what each of them gives, and tells of it in the report and on
the way. -/
theorem exec_extractAll {ix : Indexer σ} {done total : Nat} {paths : List SourcePath}
    {r r' : Report} {w w' : Workspace σ} {answer : Except PassFailure (List (List CodeUnit))}
    (h : exec (extractAll ix done total paths) r w = ((answer, r'), w')) :
    w' = { w with events := w.events ++ filesTold done total (namesTold ix w paths) } ∧
      ((∃ xs, paths.mapM (inspect ix w) = .ok xs ∧ answer = .ok (filled (unitLists xs)) ∧
          r' = xs.foldl noteFile r) ∨
        ∃ f, paths.mapM (inspect ix w) = .error f ∧ answer = .error f) := by
  induction paths generalizing done r w answer with
  | nil =>
    cases h
    exact ⟨by simp [namesTold], Or.inl ⟨[], rfl, rfl, rfl⟩⟩
  | cons path rest ih =>
    rw [List.mapM_cons]
    cases hname : ix.relative w.disk path with
    | error e =>
      have hx : inspect ix w path = .error (.escaped e) := by rw [inspect, hname]
      rw [extractAll, exec_bind, exec_extractNext, hx, hname] at h
      cases h
      exact ⟨by simp [namesTold, hname], Or.inr ⟨_, by rw [hx]; rfl, rfl⟩⟩
    | ok name =>
      cases hx : inspect ix w path with
      | error f =>
        rw [extractAll, exec_bind, exec_extractNext, hx, hname] at h
        cases h
        exact ⟨by simp [namesTold, hname, hx, filesTold_cons], Or.inr ⟨f, rfl, rfl⟩⟩
      | ok x =>
        rw [exec_extractAll_cons hname hx] at h
        -- what a file gives does not depend on the progress told before
        have hinspect : inspect ix { w with
            events := w.events ++ [⟨done, total, some name, .indexing⟩] } = inspect ix w := rfl
        have htold : w.events ++ [⟨done, total, some name, .indexing⟩] ++
            filesTold (done + 1) total (namesTold ix w rest) =
              w.events ++ filesTold done total (namesTold ix w (path :: rest)) := by
          simp [namesTold, hname, hx, filesTold_cons]
        split at h
        · next more r1 w1 hm =>
          cases h
          obtain ⟨hw, hr⟩ := ih hm
          rw [hinspect] at hr
          refine ⟨by rw [hw, namesTold_events, htold], ?_⟩
          rcases hr with ⟨xs, hxs, ha, hr'⟩ | ⟨f, -, ha⟩
          · cases ha
            refine Or.inl ⟨x :: xs, by rw [hxs]; rfl, ?_, hr'⟩
            rw [filled, filled, filled, ← List.filter_append, unitLists, unitLists, unitLists,
              ← List.filterMap_append, List.singleton_append]
          · cases ha
        · next f r1 w1 hm =>
          cases h
          obtain ⟨hw, hr⟩ := ih hm
          rw [hinspect] at hr
          refine ⟨by rw [hw, namesTold_events, htold], ?_⟩
          rcases hr with ⟨xs, -, ha, -⟩ | ⟨f, hf, ha⟩
          · cases ha
          · cases ha
            exact Or.inr ⟨f, by rw [hf]; rfl, rfl⟩

/-! ## Skipped files -/

theorem mem_setReason (files : List (Text × Text)) (file reason other : Text) :
    other ∈ (Report.setReason files file reason).map (·.1) ↔
      other ∈ files.map (·.1) ∨ other = file := by
  induction files with
  | nil => simp [Report.setReason]
  | cons f rest ih =>
    obtain ⟨f, r⟩ := f
    unfold Report.setReason
    by_cases h : f = file
    · subst h
      simp only [if_true, List.map_cons, List.mem_cons]
      tauto
    · rw [if_neg h, List.map_cons, List.mem_cons, ih, List.map_cons, List.mem_cons, or_assoc]

/-- A report tells of the files that were skipped and of no others. -/
theorem mem_skippedFiles (xs : List Extracted) (r : Report) (file : Text) :
    file ∈ (xs.foldl noteFile r).skippedFiles.map (·.1) ↔
      file ∈ r.skippedFiles.map (·.1) ∨ file ∈ skippedOf xs := by
  induction xs generalizing r with
  | nil => simp [skippedOf]
  | cons x xs ih =>
    rw [List.foldl_cons, ih]
    unfold noteFile
    cases hu : x.units with
    | error reason =>
      have hs : skippedOf (x :: xs) = x.file :: skippedOf xs := by
        simp [skippedOf, hu, Except.toOption]
      rw [hs, List.mem_cons]
      simp only [Report.skipFile, mem_setReason, or_assoc]
    | ok units =>
      have hs : skippedOf (x :: xs) = skippedOf xs := by
        simp [skippedOf, hu, Except.toOption]
      rw [hs]

end Pass

/-! ## Embedding -/

namespace Embedder

variable {σ : Type}

/-- The answer to the units of one file, and the state after it. -/
def ask (e : Embedder σ) (units : List CodeUnit) (s : σ) : Except EmbedFailure (List Embedding) × σ :=
  (e.embed (units.map (·.codeText))).run s

/-- The units of file after file with the vectors that the embedder gives them, unless it fails or
gives a file more or fewer vectors than it has units. -/
def pairs (e : Embedder σ) : List (List CodeUnit) → σ → Option (List (CodeUnit × Embedding))
  | [], _ => some []
  | units :: rest, s =>
    match (e.ask units s).1 with
    | .ok vectors =>
      if vectors.length = units.length then
        (e.pairs rest (e.ask units s).2).map (units.zip vectors ++ ·)
      else none
    | .error _ => none

/-- Every unit gets a vector, in order. -/
theorem units_pairs {e : Embedder σ} {lists : List (List CodeUnit)} {s : σ}
    {ps : List (CodeUnit × Embedding)} (h : e.pairs lists s = some ps) :
    ps.map (·.1) = lists.flatten := by
  induction lists generalizing s ps with
  | nil =>
    cases h
    rfl
  | cons units rest ih =>
    unfold pairs at h
    split at h
    · next vectors hv =>
      split at h
      · next hl =>
        obtain ⟨more, hm, rfl⟩ := Option.map_eq_some_iff.1 h
        rw [List.map_append, ih hm, List.flatten_cons, List.map_fst_zip (by omega)]
      · cases h
    · cases h

end Embedder

namespace Pass

variable {σ : Type}

/-- What is written for a unit with its vector. -/
def itemOf (project now : Text) (p : CodeUnit × Embedding) : IndexItem :=
  ⟨p.1.key, p.2, p.1.payload project now⟩

theorem isEarly_itemsOfAnswer {project now : Text} {units : List CodeUnit}
    {answer : Except EmbedFailure (List Embedding)} {f : PassFailure}
    (h : itemsOfAnswer project now units answer = .error f) : f.isEarly = true := by
  unfold itemsOfAnswer at h
  split at h
  · cases h; rfl
  · split at h <;> cases h <;> rfl
  · split at h
    · cases h
    · split at h <;> cases h <;> rfl

theorem itemsOfAnswer_ok {project now : Text} {units : List CodeUnit}
    {answer : Except EmbedFailure (List Embedding)} {items : List IndexItem}
    (h : itemsOfAnswer project now units answer = .ok items) :
    ∃ vectors, answer = .ok vectors ∧ vectors.length = units.length ∧
      items = (units.zip vectors).map (itemOf project now) := by
  unfold itemsOfAnswer at h
  split at h
  · cases h
  · split at h <;> cases h
  · next vectors =>
    split at h
    · next hl =>
      cases h
      exact ⟨vectors, rfl, hl, rfl⟩
    · split at h <;> cases h

theorem exec_embedFile (ix : Indexer σ) (units : List CodeUnit) (r : Report) (w : Workspace σ) :
    exec (embedFile ix units) r w =
      ((itemsOfAnswer ix.project w.now units (ix.embedder.ask units w.embedding).1, r),
        { w with embedding := (ix.embedder.ask units w.embedding).2 }) := rfl

theorem embedFiles_cons (ix : Indexer σ) (units : List CodeUnit) (rest : List (List CodeUnit)) :
    embedFiles ix (units :: rest) = do
      let items ← embedFile ix units
      let more ← embedFiles ix rest
      return items ++ more := by
  simp [embedFiles, List.mapM_cons]

/-- Embedding asks the embedder file after file and changes nothing but its state. -/
theorem exec_embedFiles {ix : Indexer σ} {lists : List (List CodeUnit)} {r r' : Report}
    {w w' : Workspace σ} {answer : Except PassFailure (List IndexItem)}
    (h : exec (embedFiles ix lists) r w = ((answer, r'), w')) :
    r' = r ∧ (∃ s, w' = { w with embedding := s }) ∧
      ((∃ ps, ix.embedder.pairs lists w.embedding = some ps ∧
          answer = .ok (ps.map (itemOf ix.project w.now))) ∨
        ∃ f, answer = .error f ∧ f.isEarly = true ∧
          ix.embedder.pairs lists w.embedding = none) := by
  induction lists generalizing w answer with
  | nil =>
    cases h
    exact ⟨rfl, ⟨_, rfl⟩, Or.inl ⟨[], rfl, rfl⟩⟩
  | cons units rest ih =>
    rw [embedFiles_cons, exec_bind, exec_embedFile] at h
    unfold Embedder.pairs
    cases hi : itemsOfAnswer ix.project w.now units (ix.embedder.ask units w.embedding).1 with
    | error f =>
      rw [hi] at h
      cases h
      refine ⟨rfl, ⟨_, rfl⟩, Or.inr ⟨f, rfl, isEarly_itemsOfAnswer hi, ?_⟩⟩
      split
      · next vectors hv =>
        rw [hv] at hi
        split
        · next hl => simp [itemsOfAnswer, hl] at hi
        · rfl
      · rfl
    | ok items =>
      rw [hi] at h
      obtain ⟨vectors, hv, hl, rfl⟩ := itemsOfAnswer_ok hi
      rw [hv]
      dsimp only at h ⊢
      rw [if_pos hl]
      rw [exec_bind] at h
      split at h
      · next more r1 w1 hm =>
        cases h
        obtain ⟨rfl, ⟨s, hw⟩, ⟨ps, hps, ha⟩ | ⟨f, ha, -⟩⟩ := ih hm
        · cases ha
          refine ⟨rfl, ⟨s, hw⟩, Or.inl ⟨_, by rw [hps]; rfl, ?_⟩⟩
          rw [List.map_append]
        · cases ha
      · next f r1 w1 hm =>
        cases h
        obtain ⟨rfl, ⟨s, hw⟩, ⟨ps, hps, ha⟩ | ⟨f, ha, hf, hnone⟩⟩ := ih hm
        · cases ha
        · cases ha
          exact ⟨rfl, ⟨s, hw⟩, Or.inr ⟨f, rfl, hf, by rw [hnone]; rfl⟩⟩

/-! ## Calls of the index -/

open Collection VectorIndex

theorem isEarly_callError {name : Text} {e : IndexFailure}
    (h : (callError name e).isEarly = true) : ∃ s, e = .service s ∧ s.isDimension = true := by
  cases e with
  | service s => exact ⟨s, rfl, h⟩
  | client _ | ungrouped | noFields | key _ => cases h

theorem exec_callIndex {α : Type} (name : Text) (m : IndexM α) (r : Report) (w : Workspace σ) :
    exec (callIndex name m) r w =
      (((Client.run m w.client).1.mapError (callError name), r),
        { w with client := (Client.run m w.client).2 }) := rfl

/-- Writing lays the items of the first batches over the points: all if it succeeds, and none if it
fails early. -/
theorem exec_upsert {ix : Indexer σ} {items : List IndexItem} {batches : List (List IndexItem)}
    {r r' : Report} {w w' : Workspace σ} {answer : Except PassFailure Unit}
    (hb : Batch.batches? ix.index.batchSize items = some batches)
    (h : exec (upsert ix items) r w = ((answer, r'), w')) :
    r' = r ∧ ∃ n, w'.client.points =
        overlay w.client.points ((batches.take n).flatten.map pointOf) ∧
      (answer = .ok () → batches.length ≤ n) ∧
      ∀ f, answer = .error f → f.isEarly = true → n = 0 := by
  unfold upsert at h
  split at h
  · next he =>
    have hnil : batches = [] := by
      rw [List.isEmpty_iff.1 he] at hb
      cases hb
      rfl
    subst hnil
    cases h
    exact ⟨rfl, 0, rfl, fun _ => Nat.le_refl _, nofun⟩
  · rw [exec_callIndex] at h
    cases hrun : Client.run (ix.index.upsert items) w.client with
    | mk answer c =>
      obtain ⟨n, hn, hok, herr⟩ := run_upsert hb hrun
      rw [hrun] at h
      cases h
      refine ⟨rfl, n, hn, ?_, ?_⟩
      · intro ha
        cases answer with
        | ok u => exact hok rfl
        | error e => cases ha
      · intro f hf hearly
        cases answer with
        | ok u => cases hf
        | error e =>
          cases hf
          obtain ⟨s, rfl, hs⟩ := isEarly_callError hearly
          rcases herr _ rfl with h0 | hstop
          · exact h0
          · cases hstop
            cases hs

/-- Texts that were listed as keys: all are keys of points that pass the filter, and none is missing
or listed twice. -/
structure Listed (filter : PayloadFilter) (points : List Point) (found : List Text) : Prop where
  holds : ∀ key ∈ found, HoldsKey filter points key
  complete : DistinctIds points → ∀ key, HoldsKey filter points key → key ∈ found
  nodup : DistinctIds points → found.Nodup

/-- The texts among stored keys. -/
def texts (stored : List Value) : List Text := stored.filterMap Value.text?

@[simp] theorem texts_map_text (keys : List Text) : texts (keys.map .text) = keys := by
  unfold texts
  rw [List.filterMap_map]
  exact List.filterMap_some

/-- Listing keys changes no point, and never fails early. -/
theorem exec_keys {ix : Indexer σ} {file project : Option Text} {r r' : Report}
    {w w' : Workspace σ} {answer : Except PassFailure (List Value)}
    (h : exec (keys ix file project) r w = ((answer, r'), w')) :
    r' = r ∧ w'.client.points = w.client.points ∧
      (∀ stored, answer = .ok stored →
        Listed (filterOf (file.map .text) (project.map .text)) w.client.points (texts stored)) ∧
      ∀ f, answer = .error f → f.isEarly = false := by
  unfold keys at h
  rw [exec_callIndex] at h
  cases hrun : Client.run (ix.index.keys (file.map .text) (project.map .text)) w.client with
  | mk found c =>
    have hkeep := Client.points_congr ((ix.index.keeps_keys _ _).eq hrun)
    rw [hrun] at h
    cases h
    refine ⟨rfl, hkeep, ?_, ?_⟩
    · intro stored hs
      cases found with
      | error e => cases hs
      | ok vs =>
        cases hs
        exact ⟨fun key hkey => mem_of_mem_keys hrun hkey, fun hd key => (mem_keys hd hrun key).2,
          fun hd => nodup_keys hd hrun⟩
    · intro f hf
      cases found with
      | ok vs => cases hf
      | error e =>
        cases hf
        obtain ⟨s, rfl, hs⟩ := keys_error hrun
        exact hs

/-- Keys that compare with each other: texts, or numbers. -/
def Comparable (keys : List Value) : Prop :=
  (∀ key ∈ keys, ∃ text, key = .text text) ∨ (∀ key ∈ keys, ∃ x, number? key = some x) ∨
    keys.length ≤ 1

/-- Putting keys in order needs keys that compare. -/
theorem sortedKeys?_none_iff {keys : List Value} : sortedKeys? keys = none ↔ ¬ Comparable keys := by
  have htexts : keys.mapM Value.text? = none ↔ ¬ ∀ key ∈ keys, ∃ text, key = .text text := by
    rw [mapM_none_iff, not_forall]
    simp only [not_forall, exists_prop]
    exact exists_congr fun key => and_congr_right fun _ => by cases key <;> simp [Value.text?]
  have hnumbers : keys.mapM (fun v => (number? v).map (v, ·)) = none ↔
      ¬ ∀ key ∈ keys, ∃ x, number? key = some x := by
    rw [mapM_none_iff, not_forall]
    simp only [not_forall, exists_prop, Option.map_eq_none_iff]
    exact exists_congr fun key => and_congr_right fun _ => by cases number? key <;> simp
  unfold Comparable sortedKeys?
  rw [not_or, not_or, ← htexts, ← hnumbers]
  cases keys.mapM Value.text? <;> cases keys.mapM (fun v => (number? v).map (v, ·)) <;> simp

/-- Keys that are all texts. -/
theorem map_text_texts {keys : List Value} (h : ∀ key ∈ keys, ∃ text, key = .text text) :
    (texts keys).map .text = keys := by
  induction keys with
  | nil => rfl
  | cons key keys ih =>
    obtain ⟨text, rfl⟩ := h key List.mem_cons_self
    have hrest := ih fun k hk => h k (List.mem_cons_of_mem _ hk)
    exact congrArg (Value.text text :: ·) hrest

theorem sortedKeys?_perm {keys sorted : List Value} (h : sortedKeys? keys = some sorted) :
    sorted.Perm keys := by
  unfold sortedKeys? at h
  split at h
  · next found hfound =>
    cases h
    have hkeys : found.map .text = keys := by
      refine map_of_mapM_some (fun key text ht => ?_) hfound
      cases key <;> cases ht
      rfl
    rw [← hkeys]
    exact (perm_sortBy _ _).map _
  · next numbers hnumbers _ =>
    cases h
    have hkeys : numbers.map (·.1) = keys := by
      refine map_of_mapM_some (fun key pair hpair => ?_) hnumbers
      obtain ⟨x, -, rfl⟩ := Option.map_eq_some_iff.1 hpair
      rfl
    rw [← hkeys]
    exact (perm_sortBy _ _).map _
  · split at h
    · cases h
      exact .refl _
    · cases h

/-- Deleting takes the points of the keys away, which are texts; if it fails it changes no point, and
not early. -/
theorem exec_delete {ix : Indexer σ} {keys : List Value} {r r' : Report} {w w' : Workspace σ}
    {answer : Except PassFailure Nat} (h : exec (delete ix keys) r w = ((answer, r'), w')) :
    r' = r ∧
      ((∃ gone : List Text, keys = gone.map .text ∧ answer = .ok gone.length ∧
          w'.client.points = without w.client.points (gone.map PointId.ofKey)) ∨
        ∃ f, answer = .error f ∧ f.isEarly = false ∧ w'.client.points = w.client.points) := by
  unfold delete at h
  split at h
  · cases h
    exact ⟨rfl, Or.inr ⟨_, rfl, rfl, rfl⟩⟩
  · next sorted hsorted =>
    have hperm := sortedKeys?_perm hsorted
    dsimp only at h
    split at h
    · rw [exec_bind, exec_callIndex] at h
      cases hrun : Client.run (ix.index.delete sorted) w.client with
      | mk deleted c =>
        rw [hrun] at h
        rcases run_delete hrun with ⟨gone, rfl, rfl, hpts⟩ | ⟨e, rfl, hpts⟩
        · cases h
          have hkeys : (texts keys).map .text = keys := by
            refine map_text_texts fun key hkey => ?_
            obtain ⟨text, -, rfl⟩ := List.mem_map.1 (hperm.mem_iff.2 hkey)
            exact ⟨text, rfl⟩
          have hsame : gone.Perm (texts keys) := by
            have := hperm.filterMap Value.text?
            rwa [← texts, texts_map_text] at this
          refine ⟨rfl, Or.inl ⟨texts keys, hkeys.symm, ?_, ?_⟩⟩
          · rw [← hkeys]
            simp
          · rw [hpts]
            refine without_congr _ fun id => ?_
            rw [List.mem_map, List.mem_map]
            exact exists_congr fun key => and_congr_left fun _ => hsame.mem_iff
        · cases h
          refine ⟨rfl, Or.inr ⟨_, rfl, ?_, hpts⟩⟩
          cases e with
          | service s => exact delete_error hrun rfl
          | client _ | ungrouped | noFields | key _ => rfl
    · next he =>
      have hnil : sorted = [] := by simpa using he
      subst hnil
      cases h
      obtain rfl := List.nil_perm.1 hperm
      exact ⟨rfl, Or.inl ⟨[], rfl, rfl, by simp⟩⟩

end Pass

end CodeAtlas
