import CodeAtlas.Proofs.Pass.Effect

/-!
# Surveys before and after an edit

In a project without links, what a source file gives depends on its path and its content only
(`inspect_source`). Two surveys between which one file was given new content therefore agree on all
files but that one (`Edited`):

    survey ix w = .ok xs → survey ix w' = .ok xs' → w'.disk = w.disk.writeFile … → … →
      ∃ x, Edited xs xs' x ∧ inspectOne ix w' (the file) = .ok [x]              (edited_of_writeFile)
-/

namespace CodeAtlas.Pass

open Scan

variable {σ : Type}

/-- What a file of the project gives by its path and content. -/
def extracted (ix : Indexer σ) (grammars : Extract.Grammars) (path : List Text)
    (content : List UInt8) : Except PassFailure Extracted :=
  (unitsOf (Extract.extractBytes Language.catalog grammars ix.extraction content
    ((Language.ofFile? (path.getLast?.getD "")).getD "") (relText path))).map (⟨relText path, ·⟩)

/-- A project at a path without links and with no link in it, whose files have no `::` in their
paths. -/
structure IsPlainProject (ix : Indexer σ) (d : Disk) : Prop where
  root : ix.root.root = .single
  linkFree : d.LinkFree ix.root.parts
  noMark : ∀ path content, d.raw? (ix.root.parts ++ path) = some (.file content) →
    ¬ colons <:+: (relText path).toList

theorem IsPlainProject.writeFile {ix : Indexer σ} {d : Disk} {path : List Text}
    {old : List UInt8} (h : IsPlainProject ix d)
    (hfile : d.raw? (ix.root.parts ++ path) = some (.file old)) (new : List UInt8) :
    IsPlainProject ix (d.writeFile (ix.root.parts ++ path) new) := by
  refine ⟨h.root, h.linkFree.writeFile hfile new, fun other content hother => ?_⟩
  by_cases hne : other = path
  · exact hne ▸ h.noMark path old hfile
  · rcases (h.linkFree.raw?_writeFile hfile new (ix.root.parts ++ other)).2 (by simpa using hne) with
      heq | ⟨es, -, hes, -⟩
    · exact h.noMark other content (heq ▸ hother)
    · rw [hother] at hes
      cases hes

/-- Surveys that differ in one file, the second having `x` for it. -/
structure Edited (before after : List Extracted) (x : Extracted) : Prop where
  once : ∀ y ∈ before, ∀ z ∈ before, y.file = z.file → y = z
  new : x ∈ after
  only : ∀ y ∈ after, y.file = x.file → y = x
  others : ∀ y, y.file ≠ x.file → (y ∈ after ↔ y ∈ before)

/-! ## One file -/

theorem join_parts (root : SourcePath) (path : List Text) :
    root.join ⟨.relative, path⟩ = ⟨root.root, root.parts ++ path⟩ := rfl

/-- The path of a source file as seen from the project. -/
theorem relative_source {ix : Indexer σ} {d : Disk} {path : List Text} {file : Text}
    (hix : IsPlainProject ix d) (hs : IsSource d ix.root.parts path)
    (h : ix.relative d (ix.root.join ⟨.relative, path⟩) = .ok file) :
    file = relText path ∧ Disk.pathError? (ix.root.parts ++ path) = none := by
  obtain ⟨content, hfile⟩ := hs.file
  unfold Indexer.relative withoutLinks at h
  rw [join_parts] at h
  cases hr : d.resolve ⟨ix.root.root, ix.root.parts ++ path⟩ with
  | error e =>
    rw [hr] at h
    cases h
  | ok p =>
    obtain ⟨rfl, hok⟩ := Disk.resolve_direct (hix.linkFree.direct hfile) hr
    rw [hr] at h
    cases h
    refine ⟨?_, hok⟩
    have hstart : ix.root.parts.isPrefixOf (ix.root.parts ++ path) = true :=
      List.isPrefixOf_iff_prefix.2 (List.prefix_append _ _)
    have hne : path.isEmpty = false := by simpa using hs.nonempty
    simp [SourcePath.relativeTo, hix.root, hstart, SourcePath.text, hne, SourcePath.rootText, relText]
    rfl

theorem name_source {root : SourcePath} {path : List Text} (h : path ≠ []) :
    (root.join ⟨.relative, path⟩).name = path.getLast?.getD "" := by
  rw [join_parts, SourcePath.name, List.getLast?_append, List.getLast?_eq_some_getLast h, Option.some_or]

/-- A file that is read gives what its content gives. -/
theorem extractFile_eq {ix : Indexer σ} {w : Workspace σ} {path : List Text}
    {content : List UInt8} (hne : path ≠ [])
    (hread : w.disk.read? (ix.root.parts ++ path) = some content) :
    extractFile ix w (ix.root.join ⟨.relative, path⟩) (relText path) =
      extracted ix w.grammars path content := by
  unfold extractFile extracted
  rw [name_source hne, join_parts, hread]
  dsimp only
  generalize unitsOf _ = units
  cases units <;> rfl

theorem stat_of_read? {d : Disk} {path : List Text} {content : List UInt8}
    (h : d.read? path = some content) : d.stat path = .ok (.file content) := by
  unfold Disk.read? at h
  split at h
  · cases h
  · split at h
    · next hstat =>
      cases h
      exact hstat
    · cases h

/-- What a source file gives, and that the pass over this file alone finds the same. -/
theorem inspect_source {ix : Indexer σ} {w : Workspace σ} {path : List Text} {x : Extracted}
    (hix : IsPlainProject ix w.disk) (hs : IsSource w.disk ix.root.parts path)
    (h : inspect ix w (ix.root.join ⟨.relative, path⟩) = .ok x) :
    ∃ content, w.disk.raw? (ix.root.parts ++ path) = some (.file content) ∧
      extracted ix w.grammars path content = .ok x ∧
      inspectOne ix w (ix.root.join ⟨.relative, path⟩) = .ok [x] := by
  unfold inspect at h
  cases hrel : ix.relative w.disk (ix.root.join ⟨.relative, path⟩) with
  | error e => rw [hrel] at h; cases h
  | ok file =>
    rw [hrel] at h
    dsimp only at h
    obtain ⟨rfl, hok⟩ := relative_source hix hs hrel
    cases hread : w.disk.read? (ix.root.parts ++ path) with
    | none =>
      unfold extractFile at h
      rw [join_parts, hread] at h
      cases h
    | some content =>
      have hstat := stat_of_read? hread
      have hisFile : w.disk.isFile (ix.root.parts ++ path) = .ok true := by
        unfold Disk.isFile
        rw [hok, hstat]
        rfl
      obtain ⟨old, hold⟩ := hs.file
      refine ⟨content, Disk.stat_direct (hix.linkFree.direct hold) hstat, ?_, ?_⟩
      · rw [← extractFile_eq hs.nonempty hread, h]
      · unfold inspectOne
        rw [hrel]
        dsimp only
        rw [name_source hs.nonempty, if_pos hs.language, h, join_parts, hisFile]
        rfl

/-! ## Surveys -/

/-- Whether a file has a content that gives `x`. -/
def Gives (ix : Indexer σ) (w : Workspace σ) (path : List Text) (x : Extracted) : Prop :=
  ∃ content, w.disk.raw? (ix.root.parts ++ path) = some (.file content) ∧
    extracted ix w.grammars path content = .ok x

theorem Gives.eq {ix : Indexer σ} {w : Workspace σ} {path : List Text} {x y : Extracted}
    (hx : Gives ix w path x) (hy : Gives ix w path y) : x = y := by
  obtain ⟨content, hc, hx⟩ := hx
  obtain ⟨content', hc', hy⟩ := hy
  rw [hc] at hc'
  cases hc'
  rw [hx] at hy
  exact Except.ok.inj hy

theorem Gives.file {ix : Indexer σ} {w : Workspace σ} {path : List Text} {x : Extracted}
    (h : Gives ix w path x) : x.file = relText path := by
  obtain ⟨content, -, h⟩ := h
  unfold extracted at h
  generalize unitsOf _ = units at h
  cases units with
  | error f => cases h
  | ok units => cases h; rfl

/-- A survey has what each source file gives. -/
theorem mem_survey {ix : Indexer σ} {w : Workspace σ} {xs : List Extracted}
    (hix : IsPlainProject ix w.disk) (h : survey ix w = .ok xs) :
    ∃ paths, sources w.disk ix.root ix.config = .ok paths ∧
      (∀ path ∈ paths, ∃ x ∈ xs, Gives ix w path x ∧
        inspectOne ix w (ix.root.join ⟨.relative, path⟩) = .ok [x]) ∧
      ∀ x ∈ xs, ∃ path ∈ paths, Gives ix w path x := by
  unfold survey sourcePaths at h
  cases hpaths : sources w.disk ix.root ix.config with
  | error e => rw [hpaths] at h; cases h
  | ok paths =>
    rw [hpaths] at h
    obtain ⟨hleft, hright⟩ := of_mapM_ok h
    refine ⟨paths, rfl, ?_, ?_⟩
    · intro path hpath
      obtain ⟨x, hx, hgives⟩ := hleft _ (List.mem_map_of_mem hpath)
      obtain ⟨content, hc, he, hone⟩ :=
        inspect_source hix (isSource_of_mem hix.linkFree hpaths hpath) hgives
      exact ⟨x, hx, ⟨content, hc, he⟩, hone⟩
    · intro x hx
      obtain ⟨_, hjoined, hgives⟩ := hright x hx
      obtain ⟨path, hpath, rfl⟩ := List.mem_map.1 hjoined
      obtain ⟨content, hc, he, -⟩ :=
        inspect_source hix (isSource_of_mem hix.linkFree hpaths hpath) hgives
      exact ⟨path, hpath, content, hc, he⟩

/-- The files of a survey have plain paths. -/
theorem isPlainPath_of_survey {ix : Indexer σ} {w : Workspace σ} {xs : List Extracted}
    (hix : IsPlainProject ix w.disk) (h : survey ix w = .ok xs) : ∀ x ∈ xs, IsPlainPath x.file := by
  obtain ⟨paths, hpaths, -, hgiven⟩ := mem_survey hix h
  intro x hx
  obtain ⟨path, hpath, hgives⟩ := hgiven x hx
  rw [hgives.file]
  obtain ⟨content, hc, -⟩ := hgives
  exact ⟨hix.noMark path content hc, (isSource_of_mem hix.linkFree hpaths hpath).noColon⟩

section
variable {ix : Indexer σ} {w w' : Workspace σ} {path : List Text} {old new : List UInt8}
  (hix : IsPlainProject ix w.disk) (hfile : w.disk.raw? (ix.root.parts ++ path) = some (.file old))
  (hdisk : w'.disk = w.disk.writeFile (ix.root.parts ++ path) new)
  (hgrammars : w'.grammars = w.grammars)
include hix hfile hdisk hgrammars

theorem gives_writeFile {other : List Text} (hne : other ≠ path) (x : Extracted) :
    Gives ix w' other x ↔ Gives ix w other x := by
  unfold Gives
  rw [hdisk, hgrammars]
  rcases (hix.linkFree.raw?_writeFile hfile new (ix.root.parts ++ other)).2 (by simpa using hne) with
    heq | ⟨es, es', hes, hes', -⟩
  · rw [heq]
  · rw [hes, hes']
    simp

/-- Between two surveys one file was given new content: they differ in what it gives. -/
theorem edited_of_writeFile {xs xs' : List Extracted} {paths : List (List Text)}
    (hxs : survey ix w = .ok xs) (hxs' : survey ix w' = .ok xs')
    (hpaths : sources w'.disk ix.root ix.config = .ok paths) (hpath : path ∈ paths) :
    ∃ x, Edited xs xs' x ∧ inspectOne ix w' (ix.root.join ⟨.relative, path⟩) = .ok [x] := by
  have hix' : IsPlainProject ix w'.disk := hdisk ▸ hix.writeFile hfile new
  obtain ⟨before, hbefore, hall, hgiven⟩ := mem_survey hix hxs
  obtain ⟨after, hafter, hall', hgiven'⟩ := mem_survey hix' hxs'
  rw [hpaths] at hafter
  cases hafter
  obtain ⟨x, hx, hgives, hone⟩ := hall' path hpath
  -- files of one written path are one file
  have hsame : ∀ {d : Disk} {rels : List (List Text)}, IsPlainProject ix d →
      sources d ix.root ix.config = .ok rels →
        ∀ a ∈ rels, ∀ b ∈ rels, relText a = relText b → a = b := by
    intro d rels hd hrels a ha b hb hab
    have hsa := isSource_of_mem hd.linkFree hrels ha
    have hsb := isSource_of_mem hd.linkFree hrels hb
    exact relText_inj hsa.names hsb.names hsa.nonempty hsb.nonempty hab
  refine ⟨x, ⟨?_, hx, ?_, ?_⟩, hone⟩
  · intro y hy z hz hyz
    obtain ⟨a, ha, hgy⟩ := hgiven y hy
    obtain ⟨b, hb, hgz⟩ := hgiven z hz
    rw [hgy.file, hgz.file] at hyz
    exact hgy.eq (hsame hix hbefore a ha b hb hyz ▸ hgz)
  · intro y hy hyx
    obtain ⟨a, ha, hgy⟩ := hgiven' y hy
    rw [hgy.file, hgives.file] at hyx
    exact (hsame hix' hpaths a ha path hpath hyx ▸ hgy).eq hgives
  · intro y hne
    have hother : ∀ {a}, y.file = relText a → a ≠ path := by
      rintro _ hya rfl
      exact hne (hya.trans hgives.file.symm)
    have hmem : ∀ {a}, a ≠ path → (a ∈ paths ↔ a ∈ before) := fun ha =>
      mem_sources_writeFile hix.linkFree hfile hbefore (hdisk ▸ hpaths) ha
    constructor
    · intro hy
      obtain ⟨a, ha, hgy⟩ := hgiven' y hy
      have hap := hother hgy.file
      obtain ⟨z, hz, hgz, -⟩ := hall a ((hmem hap).1 ha)
      have hyz := (gives_writeFile hix hfile hdisk hgrammars hap z).2 hgz
      exact hgy.eq hyz ▸ hz
    · intro hy
      obtain ⟨a, ha, hgy⟩ := hgiven y hy
      have hap := hother hgy.file
      obtain ⟨z, hz, hgz, -⟩ := hall' a ((hmem hap).2 ha)
      have hyz := (gives_writeFile hix hfile hdisk hgrammars hap y).2 hgy
      exact hyz.eq hgz ▸ hz

end

end CodeAtlas.Pass
