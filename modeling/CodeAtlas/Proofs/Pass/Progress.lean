import CodeAtlas.Proofs.Pass.Leaves
import CodeAtlas.Proofs.Work

/-!
# Progress

A full pass tells of the source files in the order of the scan, of each before it reads it, and at
the end of how it ended:

    w'.events = w.events ++ (filesTold 0 n names ++ [.last n report.success])     (progress_of_full)

What comes after the files were extracted tells nothing before its last step (`Concludes`), so that
there are four ways in which the steps of a pass can tell (`Tells`).
-/

namespace CodeAtlas

/-- What is told at the end of a full pass over `total` files that leaves a report. -/
def Progress.last (total : Nat) (success : Bool) : Progress :=
  if success then ⟨total, total, none, .indexed⟩ else .blank .error

namespace Pass

variable {σ α : Type}

/-! ## The files -/

section

variable {ix : Indexer σ} {w : Workspace σ}

/-- The files that are told of are the first ones. -/
theorem forall₂_namesTold (ix : Indexer σ) (w : Workspace σ) (paths : List SourcePath) :
    List.Forall₂ (fun path name => ix.relative w.disk path = .ok name)
      (paths.take (namesTold ix w paths).length) (namesTold ix w paths) := by
  induction paths with
  | nil => exact .nil
  | cons path rest ih =>
    unfold namesTold
    cases hname : ix.relative w.disk path with
    | error e => exact .nil
    | ok name =>
      cases inspect ix w path with
      | error f => exact .cons hname .nil
      | ok x => exact .cons hname ih

theorem relative_of_inspect_ok {path : SourcePath} {x : Extracted} (h : inspect ix w path = .ok x) :
    ∃ name, ix.relative w.disk path = .ok name := by
  unfold inspect at h
  split at h
  · cases h
  · next name hname => exact ⟨name, hname⟩

/-- If every file can be extracted, all are told of. -/
theorem length_namesTold {paths : List SourcePath} {xs : List Extracted}
    (h : paths.mapM (inspect ix w) = .ok xs) : (namesTold ix w paths).length = paths.length := by
  have hall := forall₂_of_mapM_ok h
  clear h
  induction hall with
  | nil => rfl
  | cons hx _ ih =>
    obtain ⟨name, hname⟩ := relative_of_inspect_ok hx
    unfold namesTold
    rw [hname, hx]
    exact congrArg Nat.succ ih

theorem read_of_inspect_ok {path : SourcePath} {x : Extracted} (h : inspect ix w path = .ok x) :
    (w.disk.read? path.parts).isSome = true := by
  unfold inspect at h
  split at h
  · cases h
  · unfold extractFile at h
    split at h
    · cases h
    · next source hread => rw [hread]; rfl

/-- Nothing is told after a file that cannot be read. -/
theorem read_namesTold {paths : List SourcePath} :
    ∀ path ∈ (paths.take (namesTold ix w paths).length).dropLast,
      (w.disk.read? path.parts).isSome = true := by
  induction paths with
  | nil =>
    intro p hp
    cases hp
  | cons path rest ih =>
    unfold namesTold
    cases ix.relative w.disk path with
    | error e =>
      intro p hp
      cases hp
    | ok name =>
      cases hx : inspect ix w path with
      | error f =>
        intro p hp
        cases hp
      | ok x =>
        intro p hp
        rw [List.length_cons, List.take_succ_cons] at hp
        cases hrest : rest.take (namesTold ix w rest).length with
        | nil =>
          rw [hrest] at hp
          cases hp
        | cons next more =>
          rw [hrest, List.dropLast_cons_cons] at hp
          rw [hrest] at ih
          rcases List.mem_cons.1 hp with rfl | hp
          · exact read_of_inspect_ok hx
          · exact ih p hp

/-- Of the failures of extraction, only that of reading a file is reported. -/
theorem unreadable_of_inspect {path : SourcePath} {e : PassError}
    (h : inspect ix w path = .error (.reported e)) :
    w.disk.read? path.parts = none ∧ e = .source (.unreadable path.text) ∧
      ∃ name, ix.relative w.disk path = .ok name := by
  unfold inspect at h
  split at h
  · cases h
  · next name hname =>
    unfold extractFile at h
    split at h
    · next hread =>
      cases h
      exact ⟨hread, rfl, name, hname⟩
    · dsimp only at h
      unfold unitsOf at h
      split at h <;> cases h

/-- The last file that is told of is the one that cannot be read. -/
theorem last_namesTold {paths : List SourcePath} {e : PassError}
    (h : paths.mapM (inspect ix w) = .error (.reported e)) :
    ∃ path, (paths.take (namesTold ix w paths).length).getLast? = some path ∧
      w.disk.read? path.parts = none ∧ e = .source (.unreadable path.text) := by
  obtain ⟨before, path, after, rfl, hbefore, hpath⟩ := mapM_error_iff.1 h
  clear h
  obtain ⟨hread, he, name, hname⟩ := unreadable_of_inspect hpath
  refine ⟨path, ?_, hread, he⟩
  induction before with
  | nil => simp [namesTold, hname, hpath]
  | cons first before ih =>
    obtain ⟨x, hx⟩ := hbefore first List.mem_cons_self
    obtain ⟨name', hname'⟩ := relative_of_inspect_ok hx
    have hrest := ih fun y hy => hbefore y (List.mem_cons_of_mem _ hy)
    have hcons : namesTold ix w (first :: before ++ path :: after) =
        name' :: namesTold ix w (before ++ path :: after) := by
      rw [List.cons_append, namesTold, hname', hx]
    rw [hcons, List.length_cons, List.cons_append, List.take_succ_cons, List.getLast?_cons, hrest]
    rfl

end

/-! ## After the files -/

/-- Work at the end of a pass: it tells `p` last of all if it succeeds, and else nothing. -/
def Concludes (p : Progress) (m : PassM σ Unit) : Prop := ∀ r w answer r' w',
  exec m r w = ((answer, r'), w') →
    w'.events = w.events ++ match answer with
      | .ok _ => [p]
      | .error _ => []

theorem concludes_bind {p : Progress} {m : PassM σ α} {f : α → PassM σ Unit}
    (hm : Leaves Workspace.events m) (hf : ∀ a, Concludes p (f a)) : Concludes p (m >>= f) := by
  intro r w answer r' w' h
  rw [exec_bind] at h
  split at h
  · next a r1 w1 h1 => rw [hf a _ _ _ _ _ h, hm.exec_eq h1]
  · next e r1 w1 h1 =>
    cases h
    rw [hm.exec_eq h1, List.append_nil]

theorem concludes_last (total : Nat) : Concludes (.last total true) (step .turn (do
    tell ⟨total, total, none, .indexed⟩
    return .ok ()) : PassM σ Unit) := by
  intro r w answer r' w' h
  rw [exec_step] at h
  cases h
  rfl

/-- What a full pass does with the units that it has found. -/
def storeAll (ix : Indexer σ) (total : Nat) (found : List (List CodeUnit)) : PassM σ Unit := do
  let items ← embedFiles ix found
  upsert ix items
  note fun r => { r with unitsIndexed := items.length }
  if ix.pruneStale then pruneProject ix items
  step .turn do
    tell ⟨total, total, none, .indexed⟩
    return .ok ()

theorem concludes_storeAll (ix : Indexer σ) (total : Nat) (found : List (List CodeUnit)) :
    Concludes (.last total true) (storeAll ix total found) := by
  refine concludes_bind (leaves_embedFiles aside_events ix _) fun items => ?_
  refine concludes_bind (leaves_upsert aside_events ix _) fun _ => ?_
  refine concludes_bind (leaves_note _) fun _ => ?_
  dsimp only
  split
  · exact concludes_bind (leaves_pruneProject aside_events ix _) fun _ => concludes_last total
  · exact concludes_last total

/-! ## The whole pass -/

/-- What the steps of a full pass tell, for each way in which they can end. -/
inductive Tells (ix : Indexer σ) (w : Workspace σ) : Except PassFailure Unit → List Progress → Prop
  /-- The files cannot be scanned. -/
  | unscanned {f : PassFailure} (hpaths : sourcePaths ix w = .error f) : Tells ix w (.error f) []
  /-- A file cannot be extracted. -/
  | unread {paths : List SourcePath} {f : PassFailure} (hpaths : sourcePaths ix w = .ok paths)
    (hxs : paths.mapM (inspect ix w) = .error f) :
    Tells ix w (.error f) (filesTold 0 paths.length (namesTold ix w paths))
  /-- The units cannot be embedded or stored. -/
  | unstored {paths : List SourcePath} {xs : List Extracted} (f : PassFailure)
    (hpaths : sourcePaths ix w = .ok paths) (hxs : paths.mapM (inspect ix w) = .ok xs) :
    Tells ix w (.error f) (filesTold 0 paths.length (namesTold ix w paths))
  | indexed {paths : List SourcePath} {xs : List Extracted} (hpaths : sourcePaths ix w = .ok paths)
    (hxs : paths.mapM (inspect ix w) = .ok xs) :
    Tells ix w (.ok ())
      (filesTold 0 paths.length (namesTold ix w paths) ++ [.last paths.length true])

theorem tells_fullSteps {ix : Indexer σ} {w w' : Workspace σ} {r r' : Report}
    {answer : Except PassFailure Unit} (h : exec (fullSteps ix) r w = ((answer, r'), w')) :
    ∃ told, w'.events = w.events ++ told ∧ Tells ix w answer told := by
  unfold fullSteps at h
  rw [exec_bind, exec_scan] at h
  cases hpaths : sourcePaths ix w with
  | error f =>
    rw [hpaths] at h
    cases h
    exact ⟨[], (List.append_nil _).symm, .unscanned hpaths⟩
  | ok paths =>
    rw [hpaths] at h
    dsimp only at h
    rw [exec_bind, exec_note] at h
    dsimp only at h
    rw [exec_bind] at h
    split at h
    · next found r1 w1 hx =>
      obtain ⟨rfl, ⟨xs, hxs, -, -⟩ | ⟨f, -, ha⟩⟩ := exec_extractAll hx
      · have hend := concludes_storeAll ix paths.length found _ _ _ _ _ h
        cases answer with
        | ok _ => exact ⟨_, by rw [hend, List.append_assoc], .indexed hpaths hxs⟩
        | error f => exact ⟨_, by rw [hend, List.append_nil], .unstored f hpaths hxs⟩
      · cases ha
    · next f r1 w1 hx =>
      cases h
      obtain ⟨rfl, ⟨xs, -, ha, -⟩ | ⟨f, hf, ha⟩⟩ := exec_extractAll hx
      · cases ha
      · cases ha
        exact ⟨_, rfl, .unread hpaths hf⟩

/-- A full pass tells what its steps tell, and of its failure if it leaves a report. -/
theorem tells_full {ix : Indexer σ} {w w' : Workspace σ} {result : Except Escape Report}
    (h : Job.full.run ix w = (result, w')) :
    ∃ answer told report, Tells ix w answer told ∧ report.error = none ∧
      match answer with
      | .ok _ => result = .ok report ∧ w'.events = w.events ++ told
      | .error (.escaped e) => result = .error e ∧ w'.events = w.events ++ told
      | .error (.reported e) => result = .ok (report.fail e.message) ∧
          w'.events = w.events ++ (told ++ [.last 0 false]) := by
  rcases hexec : exec (fullSteps ix) (.start ix.project .full) w with ⟨⟨answer, report⟩, w1⟩
  obtain ⟨told, hevents, htells⟩ := tells_fullSteps hexec
  have hrun : (outcome (.start ix.project .full) (tell (.blank .error)) (fullSteps ix)).run w =
      (result, w') := h
  rw [Job.outcome_run, hexec] at hrun
  refine ⟨answer, told, report, htells, (Job.keepsError_steps .full ix).eq hexec, ?_⟩
  cases answer with
  | ok _ =>
    cases hrun
    exact ⟨rfl, hevents⟩
  | error f =>
    cases f with
    | escaped e =>
      cases hrun
      exact ⟨rfl, hevents⟩
    | reported e =>
      cases hrun
      refine ⟨rfl, ?_⟩
      rw [← List.append_assoc, ← hevents]
      rfl

theorem source_of_sourcePaths {ix : Indexer σ} {w : Workspace σ} {e : PassError}
    (h : sourcePaths ix w = .error (.reported e)) : ∃ s, e = .source s := by
  unfold sourcePaths at h
  cases hs : Scan.sources w.disk ix.root ix.config with
  | ok rels => rw [hs] at h; cases h
  | error f =>
    rw [hs] at h
    cases f with
    | source s => cases h; exact ⟨s, rfl⟩
    | setting _ | lookup _ => cases h

/-- **The progress of a full pass.** If the files cannot be scanned, a pass that leaves a report
tells only of its error. Else it tells of the files one after the other, and last of all that the
project is indexed if the report is one of success, and of an error if not. It has told of all files
if it succeeds, and also if it fails, unless the last file that it has told of cannot be read. -/
theorem progress_of_full {ix : Indexer σ} {w w' : Workspace σ} {report : Report}
    (h : Job.full.run ix w = (.ok report, w')) :
    (∃ e : SourceError, sourcePaths ix w = .error (.reported (.source e)) ∧
        report.error = some e.message ∧ w'.events = w.events ++ [.blank .error]) ∨
      ∃ paths names, sourcePaths ix w = .ok paths ∧
        List.Forall₂ (fun path name => ix.relative w.disk path = .ok name)
          (paths.take names.length) names ∧
        w'.events = w.events ++
          (filesTold 0 paths.length names ++ [.last paths.length report.success]) ∧
        (∀ path ∈ (paths.take names.length).dropLast, (w.disk.read? path.parts).isSome = true) ∧
        (report.success = true → names.length = paths.length) ∧
        (names.length ≠ paths.length → ∃ path, (paths.take names.length).getLast? = some path ∧
          w.disk.read? path.parts = none ∧
          report.error = some (SourceError.unreadable path.text).message) := by
  obtain ⟨answer, told, r, htells, hr, hend⟩ := tells_full h
  cases htells with
  | @unscanned f hpaths =>
    cases f with
    | escaped e => cases hend.1
    | reported e =>
      obtain ⟨s, rfl⟩ := source_of_sourcePaths hpaths
      obtain ⟨hreport, hevents⟩ := hend
      cases hreport
      exact Or.inl ⟨s, hpaths, rfl, hevents⟩
  | @unread paths f hpaths hxs =>
    cases f with
    | escaped e => cases hend.1
    | reported e =>
      obtain ⟨path, hlast, hread, rfl⟩ := last_namesTold hxs
      obtain ⟨hreport, hevents⟩ := hend
      cases hreport
      exact Or.inr ⟨paths, namesTold ix w paths, hpaths, forall₂_namesTold ix w paths, hevents,
        read_namesTold, nofun, fun _ => ⟨path, hlast, hread, rfl⟩⟩
  | @unstored paths xs f hpaths hxs =>
    cases f with
    | escaped e => cases hend.1
    | reported e =>
      obtain ⟨hreport, hevents⟩ := hend
      cases hreport
      exact Or.inr ⟨paths, namesTold ix w paths, hpaths, forall₂_namesTold ix w paths, hevents,
        read_namesTold, nofun, fun hne => absurd (length_namesTold hxs) hne⟩
  | @indexed paths xs hpaths hxs =>
    obtain ⟨hreport, hevents⟩ := hend
    cases hreport
    have hsuccess : report.success = true := by rw [Report.success, hr]; rfl
    refine Or.inr ⟨paths, namesTold ix w paths, hpaths, forall₂_namesTold ix w paths, ?_,
      read_namesTold, fun _ => length_namesTold hxs, fun hne => absurd (length_namesTold hxs) hne⟩
    rw [hevents, hsuccess]

namespace Sample

/-- The project `a` with four files, of which the second is no text and the third cannot be read. -/
def refused : Workspace Unit :=
  { workspace (.fresh (.text "code")) with
    disk := ⟨.folder [("a", .folder [("m.py", .file [0x66]), ("x.py", .file [0xff]),
      ("y.py", .file [0x66]), ("z.py", .file [0x66])])], [], [], [["a", "y.py"]]⟩ }

/-- The paths of the files. -/
def paths : List SourcePath :=
  (["m.py", "x.py", "y.py", "z.py"] : List Text).map fun name => ⟨.single, ["a", name]⟩

theorem paths_refused : sourcePaths (indexer "a") refused = .ok paths := by decide +kernel

theorem names_refused :
    (paths.take 3).mapM ((indexer "a").relative refused.disk) = .ok ["m.py", "x.py", "y.py"] := by
  decide +kernel

end Sample

/-- A file that is skipped does not end the telling, one that cannot be read does. -/
theorem progress_until_refused : ∃ report w',
    Job.full.run (Sample.indexer "a") Sample.refused = (.ok report, w') ∧
      report.skippedFiles.map (·.1) = ["x.py"] ∧ w'.events =
        [⟨0, 4, some "m.py", .indexing⟩, ⟨1, 4, some "x.py", .indexing⟩,
          ⟨2, 4, some "y.py", .indexing⟩, ⟨0, 0, none, .error⟩] := by
  have hresult : (Job.full.run (Sample.indexer "a") Sample.refused).1.toOption.map
      (fun report => (report.success, report.skippedFiles.map (·.1))) =
        some (false, (["x.py"] : List Text)) := by decide +kernel
  rcases hrun : Job.full.run (Sample.indexer "a") Sample.refused with ⟨result, w'⟩
  rw [hrun] at hresult
  cases result with
  | error e => cases hresult
  | ok report =>
    obtain ⟨hsuccess, hskipped⟩ := Prod.mk.inj (Option.some.inj hresult)
    refine ⟨report, w', rfl, hskipped, ?_⟩
    rcases progress_of_full hrun with ⟨e, hpaths, -, -⟩ |
      ⟨paths, names, hpaths, hnames, hevents, hread, -, hpart⟩
    · rw [Sample.paths_refused] at hpaths
      cases hpaths
    · rw [Sample.paths_refused] at hpaths
      cases hpaths
      have hlength : names.length = 3 := by
        have hle := hnames.length_eq
        rw [List.length_take] at hle
        have hfour : Sample.paths.length = 4 := rfl
        rw [hfour] at hle hpart
        by_contra hne
        by_cases hall : names.length = 4
        · -- all four would have been told of, the third of which cannot be read
          rw [hall] at hread
          have hthird := hread ⟨.single, ["a", "y.py"]⟩ (by decide)
          revert hthird
          decide +kernel
        · -- the last that was told of would be the first or the second, and both can be read
          obtain ⟨path, hlast, hnone, -⟩ := hpart hall
          have hreadable : ∀ k < 3, (Sample.paths.take k).getLast?.all
              (fun path => (Sample.refused.disk.read? path.parts).isSome) = true := by
            decide +kernel
          have hsome := hreadable names.length (by omega)
          rw [hlast, Option.all_some, hnone] at hsome
          cases hsome
      rw [hlength] at hnames
      have hnamed := (mapM_ok_of_forall₂ hnames).symm.trans Sample.names_refused
      rw [hevents, Except.ok.inj hnamed, hsuccess]
      rfl

end Pass

end CodeAtlas
