import CodeAtlas.Proofs.Pass.Progress
import CodeAtlas.Proofs.Pass.Recovery
import CodeAtlas.Service.Basic

/-!
# The status of a service

A service shows the progress that its full passes tell, and the report of the operation that
finished last. A full pass tells last of all that the project is indexed if it succeeds, and of an
error if it fails with a report (`Telling`). If it ends without a report, or is refused since someone
else holds the project, it tells nothing at its end, and the service goes on to show that it is
indexing.
-/

namespace CodeAtlas

namespace Pass

variable {σ : Type}

/-! ## What passes tell -/

/-- What was told in between is that indexing goes on. -/
def OnlyIndexing (w w' : Workspace σ) : Prop :=
  ∃ told, w'.events = w.events ++ told ∧ ∀ p ∈ told, p.status = .indexing

/-- What a full pass has told at its end, for each way in which it can end. -/
inductive Telling (w : Workspace σ) : Except Escape Report → Workspace σ → Prop
  | indexed {report : Report} {w' : Workspace σ} {p : Progress} (hr : report.success = true)
    (hp : w'.events.getLast? = some p) (hs : p.status = .indexed) : Telling w (.ok report) w'
  | failed {report : Report} {w' : Workspace σ} (hr : report.success = false)
    (hp : w'.events.getLast? = some (.blank .error)) : Telling w (.ok report) w'
  | escaped (e : Escape) {w' : Workspace σ} (h : OnlyIndexing w w') : Telling w (.error e) w'

theorem onlyIndexing_of_tells {ix : Indexer σ} {w w' : Workspace σ} {f : PassFailure}
    {told : List Progress} (h : Tells ix w (.error f) told) (hw : w'.events = w.events ++ told) :
    OnlyIndexing w w' := by
  refine ⟨told, hw, ?_⟩
  cases h with
  | unscanned => exact nofun
  | unread | unstored => exact fun _ hp => indexing_of_mem_filesTold hp

theorem telling_full {ix : Indexer σ} {w w' : Workspace σ} {result : Except Escape Report}
    (h : Job.full.run ix w = (result, w')) : Telling w result w' := by
  obtain ⟨answer, told, report, htells, herr, hend⟩ := tells_full h
  cases answer with
  | ok _ =>
    obtain ⟨rfl, hevents⟩ := hend
    cases htells with
    | @indexed paths xs hpaths hxs =>
      have hlast : w'.events.getLast? = some (.last paths.length true) := by
        rw [hevents, ← List.append_assoc]
        exact List.getLast?_concat
      exact .indexed (by rw [Report.success, herr]; rfl) hlast rfl
  | error f =>
    cases f with
    | escaped e =>
      obtain ⟨rfl, hevents⟩ := hend
      exact .escaped e (onlyIndexing_of_tells htells hevents)
    | reported e =>
      obtain ⟨rfl, hevents⟩ := hend
      refine .failed rfl ?_
      rw [hevents, ← List.append_assoc]
      exact List.getLast?_concat

end Pass

/-! ## Services -/

open Pass

namespace Service

variable {σ : Type}

/-- What a service is asked to do, with the workspace that it finds: files, faults and the embedder
may have changed since the operation before. -/
inductive Action (σ : Type)
  /-- A full pass in the background; if `held`, someone else takes the project before it begins. -/
  | full (w : Workspace σ) (held : Bool)
  | file (w : Workspace σ) (path : SourcePath)
  | remove (w : Workspace σ) (path : SourcePath)

/-- A workspace in which nothing was told yet. -/
def silenced (w : Workspace σ) : Workspace σ := { w with events := [] }

/-- Lets a service find a workspace. Progress is told by its own passes only. -/
def find (s : Service σ) (w : Workspace σ) : Service σ := { s with workspace := silenced w }

/-- Does what is asked, to its end. Nothing comes of a full pass that cannot be started. -/
def perform (s : Service σ) : Action σ → Option (Except Escape Report) × Service σ
  | .full w held =>
    match (s.find w).start? with
    | none => (none, s.find w)
    | some s =>
      let (result, s) := { s with held := held }.resume never
      (result, { s with held := false })
  | .file w path =>
    let (result, s) := (s.find w).indexFile path
    (some result, s)
  | .remove w path =>
    let (result, s) := (s.find w).removeFile path
    (some result, s)

/-- An action and what came of it. -/
abbrev Entry (σ : Type) := Action σ × Option (Except Escape Report)

/-- Does what is asked and puts it in front of the log. -/
def record : List (Entry σ) × Service σ → Action σ → List (Entry σ) × Service σ
  | (log, s), a => ((a, (s.perform a).1) :: log, (s.perform a).2)

/-- What came of the actions, the last one first, and the service afterwards. -/
def history (s : Service σ) (actions : List (Action σ)) : List (Entry σ) × Service σ :=
  actions.foldl record ([], s)

/-- The workspace of a full pass, whether someone else held the project, and its result. -/
def fullOf? : Entry σ → Option (Workspace σ × Bool × Except Escape Report)
  | (.full w held, some result) => some (w, held, result)
  | _ => none

/-- The most recent full pass. -/
def lastFull? (log : List (Entry σ)) : Option (Workspace σ × Bool × Except Escape Report) :=
  log.findSome? fullOf?

/-- The report that an operation leaves; one that has skipped a file leaves none. -/
def reportOf? : Entry σ → Option Report
  | (.file _ _, some (.ok report)) => if report.skipped then none else some report
  | (_, some (.ok report)) => some report
  | _ => none

/-- What a service shows once a full pass has ended. -/
def statusAfter : Workspace σ × Bool × Except Escape Report → Status
  | (_, false, .ok report) => if report.success then .indexed else .error
  | (_, true, _) | (_, false, .error _) => .indexing

/-! ## One operation -/

theorem runUntil_never {α : Type} (p : Steps (Workspace σ) α) (w : Workspace σ) :
    p.runUntil never w = (.done (p.run w).1, (p.run w).2) := by
  induction p using Steps.inductionOn generalizing w with
  | done a => rfl
  | step await act ih =>
    unfold Steps.runUntil
    rw [if_neg (by simp [never]), Steps.runUntilNext_eq, ih, Steps.run_step]

/-- A service between two operations: no full pass is under way, and nobody holds the project. -/
structure Resting (ix : Indexer σ) (s : Service σ) : Prop where
  indexer : s.indexer = ix
  task : s.task = none
  held : s.held = false

variable {ix : Indexer σ} {s : Service σ}

theorem Resting.find (h : Resting ix s) (w : Workspace σ) : Resting ix (s.find w) :=
  ⟨h.indexer, h.task, h.held⟩

/-- Nothing stands in the way of a full pass. -/
theorem Resting.start?_eq (h : Resting ix s) :
    s.start? = some { s with progress := .blank .indexing, task := some .ready } := by
  simp [start?, running, busy, h.task, h.held]

/-- A pass over one file tells nothing. -/
theorem Resting.runPass (h : Resting ix s) {w : Workspace σ} {job : Job}
    {result : Except Escape Report} {s' : Service σ}
    (hrun : (s.find w).runPass (job.pass ix) = (result, s')) (hj : job ≠ .full) :
    Resting ix s' ∧ s'.progress = s.progress ∧ s'.lastReport = s.lastReport := by
  have hevents : ((job.pass ix).run (silenced w)).2.events = [] :=
    (preserves_single aside_events ix hj).run (silenced w)
  cases hrun
  refine ⟨⟨h.indexer, h.task, h.held⟩, ?_, rfl⟩
  simp [hear, hevents, Service.find]

/-- What the result of a full pass is. -/
def Resulted (ix : Indexer σ) : Workspace σ × Bool × Except Escape Report → Prop
  | (w, held, result) =>
    if held then ∃ report, result = .ok report ∧ report.success = false
    else result = (Job.full.run ix (silenced w)).1

/-- What an operation does: the service rests again, and shows a status and a report that depend on
what came of the operation. -/
structure Done (ix : Indexer σ) (s : Service σ) (entry : Entry σ) (s' : Service σ) : Prop where
  resting : Resting ix s'
  answered : entry.2.isSome = true
  status : s'.progress.status = ((fullOf? entry).map statusAfter).getD s.progress.status
  report : s'.lastReport = (reportOf? entry).or s.lastReport
  resulted : ∀ f, fullOf? entry = some f → Resulted ix f

theorem Resting.file (h : Resting ix s) (w : Workspace σ) (path : SourcePath) :
    Done ix s (.file w path, (s.perform (.file w path)).1) (s.perform (.file w path)).2 := by
  rcases hrun : (s.find w).runPass ((Job.file path).pass ix) with ⟨result, s'⟩
  obtain ⟨hrest, hprogress, hreport⟩ := h.runPass hrun nofun
  have hstatus := congrArg Progress.status hprogress
  have hfile : (s.find w).runPass (Pass.file (s.find w).indexer path) = (result, s') := by
    rw [(h.find w).indexer]
    exact hrun
  unfold perform indexFile
  dsimp only
  rw [hfile]
  cases result with
  | error e => exact ⟨hrest, rfl, hstatus, hreport, fun _ => nofun⟩
  | ok report =>
    dsimp only
    cases hskipped : report.skipped with
    | true =>
      refine ⟨hrest, rfl, hstatus, ?_, fun _ => nofun⟩
      simp only [reportOf?, hskipped]
      exact hreport
    | false =>
      refine ⟨⟨hrest.indexer, hrest.task, hrest.held⟩, rfl, hstatus, ?_, fun _ => nofun⟩
      simp [reportOf?, hskipped]

theorem Resting.remove (h : Resting ix s) (w : Workspace σ) (path : SourcePath) :
    Done ix s (.remove w path, (s.perform (.remove w path)).1) (s.perform (.remove w path)).2 := by
  rcases hrun : (s.find w).runPass ((Job.remove path).pass ix) with ⟨result, s'⟩
  obtain ⟨hrest, hprogress, hreport⟩ := h.runPass hrun nofun
  have hstatus := congrArg Progress.status hprogress
  have hremove : (s.find w).runPass (Pass.remove (s.find w).indexer path) = (result, s') := by
    rw [(h.find w).indexer]
    exact hrun
  unfold perform removeFile
  dsimp only
  rw [hremove]
  cases result with
  | error e => exact ⟨hrest, rfl, hstatus, hreport, fun _ => nofun⟩
  | ok report => exact ⟨⟨hrest.indexer, hrest.task, hrest.held⟩, rfl, hstatus, rfl, fun _ => nofun⟩

/-- What a service shows once it has heard what its full pass told. -/
theorem status_hear {s : Service σ} {w : Workspace σ} {result : Except Escape Report}
    (h : Telling w result s.workspace) (hw : w.events = []) (hs : s.progress.status = .indexing)
    (found : Workspace σ) : s.hear.progress.status = statusAfter (found, false, result) := by
  cases h with
  | indexed hr hp hstatus => simp [hear, hp, hstatus, statusAfter, hr]
  | failed hr hp => simp [hear, hp, statusAfter, hr, Progress.blank]
  | escaped e htold =>
    obtain ⟨told, hevents, hall⟩ := htold
    rw [hw, List.nil_append] at hevents
    cases hlast : told.getLast? with
    | none => simp [hear, hevents, hlast, statusAfter, hs]
    | some p =>
      have hp := hall p (List.mem_of_getLast? hlast)
      simp [hear, hevents, hlast, statusAfter, hp]

/-- A full pass that begins and runs to its end. -/
theorem resume_ready {s : Service σ} (htask : s.task = some .ready) (hheld : s.held = false)
    {result : Except Escape Report} {w' : Workspace σ}
    (hrun : Job.full.run s.indexer s.workspace = (result, w')) :
    s.resume never = (some result, { hear { s with workspace := w' } with
      task := none
      lastReport := result.toOption.or s.lastReport }) := by
  have hrun' : (Pass.full s.indexer).run s.workspace = (result, w') := hrun
  have hadvance : s.resume never = s.advance never (Pass.full s.indexer) := by
    simp [resume, htask, hheld]
  rw [hadvance, advance, runUntil_never, hrun']
  cases result <;> rfl

theorem Resting.full (h : Resting ix s) (w : Workspace σ) (held : Bool) :
    Done ix s (.full w held, (s.perform (.full w held)).1) (s.perform (.full w held)).2 := by
  have hfind := h.find w
  unfold perform
  dsimp only
  rw [hfind.start?_eq]
  cases held with
  | true =>
    -- The pass finds the project held at its first step, so that nothing is told.
    refine ⟨⟨h.indexer, rfl, rfl⟩, rfl, rfl, rfl, ?_⟩
    rintro _ ⟨⟩
    exact ⟨_, rfl, rfl⟩
  | false =>
    rcases hrun : Job.full.run ix (silenced w) with ⟨result, w'⟩
    have hresume : Service.resume never { s.find w with
        progress := .blank .indexing, task := some .ready, held := false } = _ :=
      resume_ready rfl rfl (hfind.indexer ▸ hrun)
    dsimp only
    rw [hresume]
    dsimp only
    refine ⟨⟨hfind.indexer, rfl, rfl⟩, rfl, ?_, ?_, ?_⟩
    · have hs : (Progress.blank .indexing).status = .indexing := rfl
      exact status_hear (s := { s.find w with
        progress := .blank .indexing, task := some .ready, held := false, workspace := w' })
        (telling_full hrun) rfl hs w
    · cases result <;> rfl
    · rintro _ ⟨⟩
      exact (congrArg Prod.fst hrun).symm

theorem Resting.perform (h : Resting ix s) (a : Action σ) :
    Done ix s (a, (s.perform a).1) (s.perform a).2 := by
  cases a with
  | full w held => exact h.full w held
  | file w path => exact h.file w path
  | remove w path => exact h.remove w path

/-! ## All operations -/

/-- What a service shows after what is in the log. -/
structure Shown (ix : Indexer σ) (log : List (Entry σ)) (s : Service σ) : Prop where
  resting : Resting ix s
  answered : ∀ entry ∈ log, entry.2.isSome = true
  status : s.progress.status = ((lastFull? log).map statusAfter).getD .idle
  report : s.lastReport = log.findSome? reportOf?
  resulted : ∀ f, lastFull? log = some f → Resulted ix f

theorem Shown.step {log : List (Entry σ)} (h : Shown ix log s) (a : Action σ) :
    Shown ix ((a, (s.perform a).1) :: log) (s.perform a).2 := by
  have hdone := h.resting.perform a
  refine ⟨hdone.resting, ?_, ?_, ?_, ?_⟩
  · intro entry hentry
    rcases List.mem_cons.1 hentry with rfl | hentry
    · exact hdone.answered
    · exact h.answered entry hentry
  · rw [hdone.status, lastFull?, List.findSome?_cons]
    cases hf : fullOf? (a, (s.perform a).1) with
    | none => exact h.status
    | some f => rfl
  · rw [hdone.report, List.findSome?_cons, h.report]
    cases reportOf? (a, (s.perform a).1) <;> rfl
  · intro f hf
    rw [lastFull?, List.findSome?_cons] at hf
    cases hone : fullOf? (a, (s.perform a).1) with
    | none =>
      rw [hone] at hf
      exact h.resulted f hf
    | some g =>
      rw [hone] at hf
      cases hf
      exact hdone.resulted _ hone

theorem Shown.foldl {log : List (Entry σ)} (h : Shown ix log s) (actions : List (Action σ)) :
    Shown ix (actions.foldl record (log, s)).1 (actions.foldl record (log, s)).2 := by
  induction actions generalizing log s with
  | nil => exact h
  | cons a actions ih => exact ih (h.step a)

theorem shown_history (ix : Indexer σ) (topK : Int) (w₀ : Workspace σ) (actions : List (Action σ))
    {log : List (Entry σ)} {s : Service σ}
    (h : (make ix topK w₀).history actions = (log, s)) : Shown ix log s := by
  have hstart : Shown ix [] (make ix topK w₀) :=
    ⟨⟨rfl, rfl, rfl⟩, fun _ => nofun, rfl, rfl, fun _ => nofun⟩
  have hend := hstart.foldl actions
  rwa [show actions.foldl record ([], make ix topK w₀) = (log, s) from h] at hend

theorem Resulted.status_iff {w : Workspace σ} {held : Bool} {result : Except Escape Report}
    (h : Resulted ix (w, held, result)) :
    (statusAfter (w, held, result) = .indexed ↔
        ∃ report, result = .ok report ∧ report.success = true) ∧
      (statusAfter (w, held, result) = .error ↔
        held = false ∧ ∃ report, result = .ok report ∧ report.success = false) ∧
      (statusAfter (w, held, result) = .indexing ↔ held = true ∨ ∃ e, result = .error e) := by
  cases held with
  | true =>
    obtain ⟨report, rfl, hr⟩ := h
    simp [statusAfter, hr]
  | false =>
    cases result with
    | error e => simp [statusAfter]
    | ok report => cases hr : report.success <;> simp [statusAfter, hr]

/-- A full pass that was not refused ends without a report if something happens that it does not
tell of. -/
theorem Resulted.error_iff {w : Workspace σ} {held : Bool} {result : Except Escape Report}
    (h : Resulted ix (w, held, result)) {globs : List Text} {limit : Int}
    (hc : Scan.WellTyped ix.config globs limit) (hg : Extract.OnBoundaries w.grammars) :
    (∃ e, result = .error e) ↔ held = false ∧
      Job.full.Untold ix (silenced w) (Scan.sourceRules globs limit) := by
  cases held with
  | true =>
    obtain ⟨report, rfl, -⟩ := h
    simp
  | false =>
    have hrun : result = (Job.full.run ix (silenced w)).1 := h
    have hreports : (∃ report, result = .ok report) ↔
        ¬ Job.full.Untold ix (silenced w) (Scan.sourceRules globs limit) := by
      rw [hrun, reports_iff]
      exact not_congr (escapes_full_iff (w := silenced w) hc hg)
    cases result with
    | error e => simpa using hreports
    | ok report => simpa using hreports

/-- **The status of a service.** Whatever it was asked to do, no full pass is under way afterwards,
and it shows the report of the operation that was the last to leave one. Once there was a full pass,

* it shows that the project is indexed exactly if the last full pass succeeded;
* it shows an error exactly if the last full pass began and failed with a report;
* it goes on to show that it is indexing exactly if the last full pass was refused or ended without a
  report, the latter exactly if something happened that a full pass does not tell of. -/
theorem status_of_last_full (ix : Indexer σ) (topK : Int) (w₀ : Workspace σ)
    (actions : List (Action σ)) {log : List (Entry σ)} {s : Service σ}
    (h : (make ix topK w₀).history actions = (log, s)) :
    s.running = false ∧ (∀ entry ∈ log, entry.2.isSome = true) ∧
      s.lastReport = log.findSome? reportOf? ∧
      (lastFull? log = none → s.progress.status = .idle) ∧
      ∀ w held result, lastFull? log = some (w, held, result) →
        (s.progress.status = .indexed ↔ ∃ report, result = .ok report ∧ report.success = true) ∧
        (s.progress.status = .error ↔
          held = false ∧ ∃ report, result = .ok report ∧ report.success = false) ∧
        (s.progress.status = .indexing ↔ held = true ∨ ∃ e, result = .error e) ∧
        ∀ globs limit, Scan.WellTyped ix.config globs limit → Extract.OnBoundaries w.grammars →
          ((∃ e, result = .error e) ↔ held = false ∧
            Job.full.Untold ix (silenced w) (Scan.sourceRules globs limit)) := by
  have hs := shown_history ix topK w₀ actions h
  refine ⟨by simp [running, hs.resting.task], hs.answered, hs.report, ?_, ?_⟩
  · intro hnone
    rw [hs.status, hnone]
    rfl
  · intro w held result hlast
    have hresulted := hs.resulted _ hlast
    have hstatus : s.progress.status = statusAfter (w, held, result) := by
      rw [hs.status, hlast]
      rfl
    obtain ⟨hindexed, herror, hindexing⟩ := hresulted.status_iff
    rw [hstatus]
    exact ⟨hindexed, herror, hindexing, fun _ _ hc hg => hresulted.error_iff hc hg⟩

namespace Sample

/-- The project `a` with a file, and an empty store. -/
def found : Workspace Unit := Pass.Sample.workspace (.fresh (.text "code"))

/-- A service of the project `a` after it was asked to do something. -/
def after (actions : List (Action Unit)) : List (Entry Unit) × Service Unit :=
  (make (Pass.Sample.indexer "a") 5 found).history actions

/-- The project is indexed, and once more after its file has become a link to itself. -/
def relinked : List (Action Unit) :=
  [.full found false, .full (Pass.Sample.linked "m.py") false]

end Sample

/-- The second full pass ends without a report, so that the report of the first one remains. -/
theorem relinked_status :
    (lastFull? (Sample.after Sample.relinked).1).map (·.2) =
        some (false, .error (.lookup .loop)) ∧
      (Sample.after Sample.relinked).2.running = false ∧
      (Sample.after Sample.relinked).2.progress.status = .indexing ∧
      (Sample.after Sample.relinked).2.lastReport.map Report.success = some true := by
  obtain ⟨hend, hreport⟩ :
      (lastFull? (Sample.after Sample.relinked).1).map (·.2) =
        some (false, .error (.lookup .loop)) ∧
      ((Sample.after Sample.relinked).1.findSome? reportOf?).map Report.success = some true := by
    decide +kernel
  rcases hafter : Sample.after Sample.relinked with ⟨log, s⟩
  rw [hafter] at hend hreport
  obtain ⟨⟨w, held, result⟩, hlast, hresult⟩ := Option.map_eq_some_iff.1 hend
  cases hresult
  obtain ⟨hrunning, -, hshown, -, hstatus⟩ := status_of_last_full (Pass.Sample.indexer "a") 5
    Sample.found Sample.relinked hafter
  obtain ⟨-, -, hindexing, -⟩ := hstatus w false _ hlast
  exact ⟨hend, hrunning, hindexing.2 (Or.inr ⟨_, rfl⟩), hshown ▸ hreport⟩

/-- No full pass is under way, and still the service shows that it is indexing: after a full pass
that met a link to itself and left no report, and after one that was refused and left a report of
that. -/
theorem status_left_indexing :
    ((Sample.after [.full (Pass.Sample.linked "m.py") false]).2.running = false ∧
      (Sample.after [.full (Pass.Sample.linked "m.py") false]).2.progress.status = .indexing ∧
      (Sample.after [.full (Pass.Sample.linked "m.py") false]).2.lastReport = none) ∧
    (Sample.after [.full Sample.found true]).2.running = false ∧
      (Sample.after [.full Sample.found true]).2.progress.status = .indexing ∧
      (Sample.after [.full Sample.found true]).2.lastReport.map Report.success = some false := by
  decide +kernel

end Service

end CodeAtlas
