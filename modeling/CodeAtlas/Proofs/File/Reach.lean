import CodeAtlas.Proofs.File.Links
import CodeAtlas.Proofs.File.Sources

/-!
# What a scan comes to

Under well-typed settings a scan fails without a report for one reason only, apart from the length
of its own path: it comes to a link that leads neither to something nor nowhere, because it turns in
a circle, goes through a file or is too long.

    (∃ e, files d base (.ok r) = .error (.lookup e)) ↔ d.stat base.parts = .error .tooLong ∨
      ∃ path k e, Meets d r base path k ∧ Blocked d (base.parts ++ path) k e    (files_lookup_iff)

How a scan can end is said once (`files_ends`). Below a direct path on a plain disk, what it lists
has a path without links (`resolve_of_meets`).
-/

namespace CodeAtlas.Scan

variable {d : Disk} {r : Rules} {base rel path : List Text} {n k : FileNode} {f : Error}

/-! ## Entries that are met -/

/-- The files and links that a scan comes to at and below a node. -/
inductive Met (d : Disk) (r : Rules) (base : List Text) :
    List Text → FileNode → List Text → FileNode → Prop
  | itself {rel : List Text} {n : FileNode} (hn : ∀ entries, n ≠ .folder entries) :
    Met d r base rel n rel n
  | inside {rel path : List Text} {entries : List (Text × FileNode)} {e : Text × FileNode}
    {n : FileNode} (ho : Opens d r base rel) (he : e ∈ entries)
    (h : Met d r base (rel ++ [e.1]) e.2 path n) : Met d r base rel (.folder entries) path n

theorem met_file (content : List UInt8) :
    Met d r base rel (.file content) rel (.file content) := .itself nofun

theorem met_link (target : Text) : Met d r base rel (.link target) rel (.link target) :=
  .itself nofun

/-- The files and links that a scan of the folder `base` comes to. -/
structure Meets (d : Disk) (r : Rules) (base : SourcePath) (path : List Text) (n : FileNode) :
    Prop where
  listed : d.unlistable.contains base.parts = false
  met : ∃ entries, d.stat base.parts = .ok (.folder entries) ∧
    ∃ e ∈ entries, Met d r base.parts [e.1] e.2 path n

/-- A link that leads neither to something nor nowhere. -/
structure Blocked (d : Disk) (path : List Text) (n : FileNode) (e : LookupError) : Prop where
  link : ∃ target, n = .link target
  stat : d.stat path = .error e
  notMissing : e ≠ .missing

/-- What is met is there. -/
theorem Met.raw? (h : Met d r base rel n path k) (hd : d.top.WellNamed)
    (hn : d.raw? (base ++ rel) = some n) : d.raw? (base ++ path) = some k := by
  induction h with
  | itself => exact hn
  | inside _ he _ ih =>
    refine ih ?_
    rw [← List.append_assoc]
    exact Disk.raw?_of_mem hd hn he

theorem Meets.raw? {base : SourcePath} (h : Meets d r base path n) (hd : d.top.WellNamed)
    (hbase : d.Direct base.parts) : d.raw? (base.parts ++ path) = some n := by
  obtain ⟨entries, hs, e, he, hm⟩ := h.met
  exact hm.raw? hd (Disk.raw?_of_mem hd (Disk.stat_direct hbase hs) he)

/-! ## One entry -/

theorem fileSize?_error_iff :
    fileSize? d path n = .error f ↔ ∃ e, Blocked d path n e ∧ f = .lookup e := by
  constructor
  · intro h
    cases n with
    | file => cases h
    | folder => cases h
    | link target =>
      rw [fileSize?] at h
      split at h
      · cases h
      · cases h
      · cases h
      · next e hmissing hs =>
        cases h
        exact ⟨e, ⟨⟨target, rfl⟩, hs, fun he => hmissing he⟩, rfl⟩
  · rintro ⟨e, ⟨⟨target, rfl⟩, hs, he⟩, rfl⟩
    unfold fileSize?
    rw [hs]
    cases e with
    | missing => exact absurd rfl he
    | notFolder | loop | tooLong => rfl

/-- Rules that can be asked about every path and size. -/
structure Rules.Total (r : Rules) : Prop where
  excluded : ∀ path e, r.excluded path ≠ .error e
  takesSize : ∀ size e, r.takesSize size ≠ .error e

/-- Looking at an entry fails if its size does. -/
theorem visitFile_error (h : fileSize? d (base ++ rel) n = .error f) :
    visitFile d r base rel n = .error f := by
  unfold visitFile
  rw [h]
  rfl

/-- Once its size is known, looking at an entry comes to an end. -/
theorem visitFile_ok (hr : r.Total) {size : Option Nat}
    (h : fileSize? d (base ++ rel) n = .ok size) : ∃ out, visitFile d r base rel n = .ok out := by
  unfold visitFile
  rw [h]
  cases size with
  | none => exact ⟨[], rfl⟩
  | some size =>
    simp only [bind, Except.bind]
    split
    · exact ⟨[], rfl⟩
    · split
      · next e he => exact absurd he (hr.excluded _ e)
      · exact ⟨[], rfl⟩
      · split
        · next e he => exact absurd he (hr.takesSize _ e)
        · next taken _ => exact ⟨if taken then [rel] else [], rfl⟩

theorem blocked_of_visitFile_error (hr : r.Total) (h : visitFile d r base rel n = .error f) :
    ∃ e, Blocked d (base ++ rel) n e ∧ f = .lookup e := by
  cases hs : fileSize? d (base ++ rel) n with
  | ok size =>
    obtain ⟨out, hout⟩ := visitFile_ok hr hs
    rw [hout] at h
    cases h
  | error f' =>
    rw [visitFile_error hs] at h
    cases h
    exact fileSize?_error_iff.1 hs

theorem fileSize?_of_mem_visitFile {out : List (List Text)}
    (h : visitFile d r base rel n = .ok out) (hp : path ∈ out) :
    path = rel ∧ ∃ size, fileSize? d (base ++ path) n = .ok (some size) := by
  obtain ⟨rfl, hc⟩ := (mem_visitFile_iff h path).1 hp
  obtain ⟨size, hs, -⟩ := hc.size
  exact ⟨rfl, size, hs⟩

/-! ## Folders -/

theorem inNameOrder_error {results : List (Text × Except Error (List (List Text)))}
    (h : inNameOrder results = .error f) : ∃ e ∈ results, e.2 = .error f := by
  unfold inNameOrder at h
  dsimp only at h
  cases hm : (sortBy (fun a b => !decide (b.1 < a.1)) results).mapM (·.2) with
  | ok lists =>
    rw [hm] at h
    cases h
  | error f' =>
    rw [hm] at h
    cases h
    obtain ⟨e, he, hf⟩ := exists_of_mapM_error hm
    exact ⟨e, by simpa using he, hf⟩

theorem exists_inNameOrder_error {results : List (Text × Except Error (List (List Text)))}
    {e : Text × Except Error (List (List Text))} (he : e ∈ results) (hf : e.2 = .error f) :
    ∃ f', inNameOrder results = .error f' := by
  cases h : inNameOrder results with
  | error f' => exact ⟨f', rfl⟩
  | ok out =>
    obtain ⟨found, hfound⟩ := ok_of_inNameOrder h e he
    rw [hf] at hfound
    cases hfound

/-- The results of the entries of a folder that is gone into. -/
theorem visit_folder (ho : Opens d r base rel) (entries : List (Text × FileNode)) :
    visit d r base rel (.folder entries) = inNameOrder (visitEntries d r base rel entries) := by
  rw [visit, ho.path]
  dsimp only
  rw [if_neg (by rw [ho.listed]; exact Bool.false_ne_true)]

/-- A folder is gone into, or nothing comes of it. -/
theorem opens_or_visit_nil (hr : r.Total) (entries : List (Text × FileNode)) :
    Opens d r base rel ∨ visit d r base rel (.folder entries) = .ok [] := by
  cases hpath : r.excluded (relText rel ++ "/") with
  | error e => exact absurd hpath (hr.excluded _ e)
  | ok excluded =>
    cases hlisted : d.unlistable.contains (base ++ rel) with
    | true =>
      right
      rw [visit, hpath]
      cases excluded with
      | true => rfl
      | false => exact if_pos hlisted
    | false =>
      cases excluded with
      | true =>
        right
        rw [visit, hpath]
      | false => exact Or.inl ⟨hpath, hlisted⟩

/-- What fails a scan has been met. -/
theorem blocked_of_visit_error (hr : r.Total) (h : visit d r base rel n = .error f) :
    ∃ path k e, Met d r base rel n path k ∧ Blocked d (base ++ path) k e ∧ f = .lookup e := by
  induction n using FileNode.inductionOn generalizing rel with
  | file content =>
    rw [visit] at h
    obtain ⟨e, hb, hf⟩ := blocked_of_visitFile_error hr h
    exact ⟨rel, _, e, met_file content, hb, hf⟩
  | link target =>
    rw [visit] at h
    obtain ⟨e, hb, hf⟩ := blocked_of_visitFile_error hr h
    exact ⟨rel, _, e, met_link target, hb, hf⟩
  | folder entries ih =>
    rcases opens_or_visit_nil hr entries with ho | hnil
    · rw [visit_folder ho, visitEntries_eq] at h
      obtain ⟨_, hresult, hf⟩ := inNameOrder_error h
      obtain ⟨e, he, rfl⟩ := List.mem_map.1 hresult
      obtain ⟨path, k, x, hm, hb, hx⟩ := ih e he hf
      exact ⟨path, k, x, .inside ho he hm, hb, hx⟩
    · rw [hnil] at h
      cases h

/-- A link that is met and blocked fails the scan. -/
theorem Met.visit_error (h : Met d r base rel n path k) {e : LookupError}
    (hb : Blocked d (base ++ path) k e) : ∃ f, visit d r base rel n = .error f := by
  induction h with
  | @itself rel n hn =>
    have hv : visitFile d r base rel n = .error (.lookup e) :=
      visitFile_error (fileSize?_error_iff.2 ⟨e, hb, rfl⟩)
    obtain ⟨target, rfl⟩ := hb.link
    exact ⟨_, by rw [visit, hv]⟩
  | inside ho he _ ih =>
    obtain ⟨f, hf⟩ := ih hb
    rw [visit_folder ho, visitEntries_eq]
    exact exists_inNameOrder_error (List.mem_map.2 ⟨_, he, rfl⟩) hf

/-- What is listed has been met, and leads to a file. -/
theorem met_of_mem_visit (hr : r.Total) {out : List (List Text)}
    (h : visit d r base rel n = .ok out) (hp : path ∈ out) :
    ∃ k size, Met d r base rel n path k ∧ fileSize? d (base ++ path) k = .ok (some size) := by
  induction n using FileNode.inductionOn generalizing rel out with
  | file content =>
    rw [visit] at h
    obtain ⟨rfl, size, hs⟩ := fileSize?_of_mem_visitFile h hp
    exact ⟨_, size, met_file content, hs⟩
  | link target =>
    rw [visit] at h
    obtain ⟨rfl, size, hs⟩ := fileSize?_of_mem_visitFile h hp
    exact ⟨_, size, met_link target, hs⟩
  | folder entries ih =>
    rcases opens_or_visit_nil hr entries with ho | hnil
    · rw [visit_folder ho, visitEntries_eq] at h
      obtain ⟨_, hresult, found, hf, hx⟩ := (mem_inNameOrder h path).1 hp
      obtain ⟨e, he, rfl⟩ := List.mem_map.1 hresult
      obtain ⟨k, size, hm, hs⟩ := ih e he hf hx
      exact ⟨k, size, .inside ho he hm, hs⟩
    · rw [hnil] at h
      cases h
      cases hp

/-! ## Scans -/

/-- How a scan under total rules can end: its folder is refused, its path is too long, it meets a
blocked link, or it lists paths that it has met and that lead to files. -/
inductive Ends (d : Disk) (r : Rules) (base : SourcePath) :
    Except Error (List (List Text)) → Prop
  | refused (e : SourceError) (h : ∀ path k, ¬ Meets d r base path k) :
    Ends d r base (.error (.source e))
  | long (h : d.stat base.parts = .error .tooLong) : Ends d r base (.error (.lookup .tooLong))
  | blocked {path : List Text} {k : FileNode} {e : LookupError} (hm : Meets d r base path k)
    (hb : Blocked d (base.parts ++ path) k e) : Ends d r base (.error (.lookup e))
  | listed {out : List (List Text)} (h : ∀ path ∈ out, ∃ k size, Meets d r base path k ∧
    fileSize? d (base.parts ++ path) k = .ok (some size)) : Ends d r base (.ok out)

theorem files_ends (hr : r.Total) (base : SourcePath) : Ends d r base (files d base (.ok r)) := by
  unfold files
  split
  · next entries hs =>
    split
    · next hlisted =>
      exact .refused _ fun path k hm => by rw [hm.listed] at hlisted; cases hlisted
    · next hlisted =>
      have hmeets : ∀ e ∈ entries, ∀ path k, Met d r base.parts [e.1] e.2 path k →
          Meets d r base path k :=
        fun e he path k hm => ⟨Bool.eq_false_iff.2 hlisted, entries, hs, e, he, hm⟩
      dsimp only
      rw [visitEntries_eq]
      cases h : inNameOrder
          (entries.map fun e => (e.1, visit d r base.parts ([] ++ [e.1]) e.2)) with
      | error f =>
        obtain ⟨_, hresult, hf⟩ := inNameOrder_error h
        obtain ⟨e, he, rfl⟩ := List.mem_map.1 hresult
        obtain ⟨path, k, x, hm, hb, rfl⟩ := blocked_of_visit_error hr hf
        exact .blocked (hmeets e he path k hm) hb
      | ok out =>
        refine .listed fun path hp => ?_
        obtain ⟨_, hresult, found, hf, hx⟩ := (mem_inNameOrder h path).1 hp
        obtain ⟨e, he, rfl⟩ := List.mem_map.1 hresult
        obtain ⟨k, size, hm, hsize⟩ := met_of_mem_visit hr hf hx
        exact ⟨k, size, hmeets e he path k hm, hsize⟩
  · next hs => exact .long hs
  · next hfolder _ =>
    refine .refused _ fun path k hm => ?_
    obtain ⟨entries, hs, -⟩ := hm.met
    exact hfolder entries hs

theorem Meets.files_error {base : SourcePath} (h : Meets d r base path k) {e : LookupError}
    (hb : Blocked d (base.parts ++ path) k e) : ∃ f, files d base (.ok r) = .error f := by
  obtain ⟨entries, hs, x, hx, hm⟩ := h.met
  obtain ⟨f, hf⟩ := hm.visit_error hb
  unfold files
  rw [hs]
  dsimp only
  rw [if_neg (by rw [h.listed]; exact Bool.false_ne_true), visitEntries_eq]
  exact exists_inNameOrder_error (List.mem_map_of_mem hx) hf

/-- Without a report, a scan fails at its own path or at a link that it meets. -/
theorem files_lookup_iff (hr : r.Total) {base : SourcePath} :
    (∃ e, files d base (.ok r) = .error (.lookup e)) ↔ d.stat base.parts = .error .tooLong ∨
      ∃ path k e, Meets d r base path k ∧ Blocked d (base.parts ++ path) k e := by
  constructor
  · rintro ⟨e, h⟩
    have hends := files_ends (d := d) hr base
    rw [h] at hends
    cases hends with
    | long hs => exact Or.inl hs
    | blocked hm hb => exact Or.inr ⟨_, _, e, hm, hb⟩
  · rintro (hs | ⟨path, k, e, hm, hb⟩)
    · exact ⟨.tooLong, by rw [files, hs]⟩
    · obtain ⟨f, hf⟩ := hm.files_error hb
      have hends := files_ends (d := d) hr base
      rw [hf] at hends
      -- which link comes first decides which error it is
      cases hends with
      | refused _ hno => exact absurd hm (hno path k)
      | long => exact ⟨_, hf⟩
      | blocked => exact ⟨_, hf⟩

/-- A file that a scan comes to has a path without links, directly or through links. -/
theorem resolve_of_meets (hd : d.IsPlain) {base : SourcePath} (hbase : d.Direct base.parts)
    (hm : Meets d r base path k) {size : Nat}
    (hs : fileSize? d (base.parts ++ path) k = .ok (some size)) (root : PathRoot) :
    ∃ p, d.resolve ⟨root, base.parts ++ path⟩ = .ok p := by
  have hraw := hm.raw? hd.named hbase
  cases k with
  | file content => exact ⟨_, hd.resolve_of_raw? hraw nofun⟩
  | folder entries => cases hs
  | link target =>
    have hparts : ∀ p ∈ base.parts ++ path, p ≠ "" :=
      fun p hp => (hd.named.isEntryName hraw p hp).nonempty
    rw [fileSize?] at hs
    split at hs
    · next content hstat => exact hd.resolve_of_stat hparts hstat
    · cases hs
    · cases hs
    · cases hs

/-! ## Well-typed settings -/

/-- A configuration whose globs are texts and whose limit can be read as a number. -/
structure WellTyped (config : Value) (globs : List Text) (limit : Int) : Prop where
  globs : ∃ v, v.elements = .ok (globs.map .text) ∧
    (if config.truthy then config else .dict []).field "exclude_globs" (.list []) = .ok v
  limit : ∃ v, (if v.truthy then v.integer else .ok 0) = .ok limit ∧
    (if config.truthy then config else .dict []).field "max_file_size_kb" (.int 0) = .ok v

/-- The rules of such a configuration. -/
def sourceRules (globs : List Text) (limit : Int) : Rules :=
  ⟨Language.allExtensions, fun path => .ok (Glob.matchesAny globs path),
    fun size => .ok (withinLimit limit size)⟩

theorem total_sourceRules (globs : List Text) (limit : Int) : (sourceRules globs limit).Total :=
  ⟨fun _ _ => nofun, fun _ _ => nofun⟩

theorem sources_eq {base : SourcePath} {config : Value} {globs : List Text} {limit : Int}
    (h : WellTyped config globs limit) :
    sources d base config = files d base (.ok (sourceRules globs limit)) := by
  obtain ⟨⟨v, helements, hv⟩, l, hlimit, hl⟩ := h
  have hrules : rulesOf v limit = .ok (sourceRules globs limit) := by
    unfold rulesOf sourceRules
    rw [helements]
    simp only [bind, Except.bind, matchItems_text]
    rfl
  unfold sources
  dsimp only
  rw [hv, hl]
  dsimp only
  rw [hlimit]
  dsimp only
  rw [hrules]

end CodeAtlas.Scan
