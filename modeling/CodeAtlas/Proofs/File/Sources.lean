import CodeAtlas.File.Scan
import CodeAtlas.Proofs.File.Tree
import CodeAtlas.Proofs.Sort
import CodeAtlas.Proofs.Work
import Mathlib.Data.List.TakeDrop

/-!
# What a scan yields

In a folder without links, a scan yields the files that count below folders that it goes into:

    files d base (.ok r) = .ok out → (path ∈ out ↔ Yields d r base.parts 1 path)      (mem_files)

Whether a path is yielded depends on the tree only by what is at that path, so that new content of
one file does not change which other files are yielded (`mem_sources_writeFile`).
-/

namespace CodeAtlas

/-! ## Names of source files -/

theorem fromLastDot_suffix (cs : List CodePoint) : fromLastDot cs <:+ cs := by
  unfold fromLastDot
  rw [List.span_eq_takeWhile_dropWhile]
  cases hdrop : cs.reverse.dropWhile (· != CodePoint.char '.') with
  | nil => exact List.nil_suffix
  | cons c rest =>
    have hc : c = '.' := by
      have hnot := List.head?_dropWhile_not (· != CodePoint.char '.') cs.reverse
      rw [hdrop] at hnot
      simpa using hnot
    have hsplit : cs.reverse.takeWhile (· != CodePoint.char '.') ++ .char '.' :: rest =
        cs.reverse := by
      have happend :=
        List.takeWhile_append_dropWhile (p := (· != CodePoint.char '.')) (l := cs.reverse)
      rwa [hdrop, hc] at happend
    refine ⟨rest.reverse, ?_⟩
    have hcs := congrArg List.reverse hsplit
    simpa using hcs

theorem suffix_intercalate (sep : List CodePoint) (above : List (List CodePoint))
    (last : List CodePoint) :
    last <:+ sep.intercalate (above ++ [last]) := by
  induction above with
  | nil => simp
  | cons a above ih =>
    rw [List.cons_append, List.intercalate_cons_of_ne_nil (by simp)]
    exact ih.trans (List.suffix_append _ _)

theorem baseName_suffix (s : Text) : (baseName s).toList <:+ s.toList := by
  rw [baseName, Text.toList_ofList]
  rcases List.eq_nil_or_concat (s.toList.splitOn (.char '/')) with hnil | ⟨above, last, hsplit⟩
  · rw [hnil]
    exact List.nil_suffix
  · have hjoin : List.intercalate [.char '/'] (s.toList.splitOn (.char '/')) = s.toList :=
      List.intercalate_splitOn _
    rw [hsplit, List.concat_eq_append] at hjoin
    rw [hsplit, List.concat_eq_append, List.getLast?_concat, Option.getD_some, ← hjoin]
    exact suffix_intercalate _ _ _

theorem extension_suffix (name : Text) : (extension name).toList <:+ name.toList := by
  rw [extension, Text.toList_ofList]
  exact ((fromLastDot_suffix _).trans (List.dropWhile_suffix _)).trans (baseName_suffix name)

/-- A colon stays a colon in lower case. -/
theorem Text.colon_mem_lower {s : Text} (h : .char ':' ∈ s.toList) :
    .char ':' ∈ (lower s).toList := by
  have hfrom : ∀ cs before, .char ':' ∈ cs → .char ':' ∈ lowerFrom before cs := by
    intro cs
    induction cs with
    | nil => exact fun _ h => h
    | cons c cs ih =>
      intro before hc
      rw [lowerFrom]
      rcases List.mem_cons.1 hc with rfl | hc
      · have hlow : lowerPoint (.char ':') = .char ':' := by decide +kernel
        simp [hlow]
      · exact List.mem_append_right _ (ih _ hc)
  rw [lower, Text.toList_ofList]
  exact hfrom s.toList [] h

theorem Language.isSome_ofFile?_iff (name : Text) : (ofFile? name).isSome = true ↔
    allExtensions.contains (Text.lower (extension name)) = true := by
  unfold ofFile? allExtensions
  rw [Option.isSome_map, List.find?_isSome, List.contains_iff_mem, List.mem_flatMap]
  simp only [List.contains_iff_mem]

/-- A path of a known language does not end in a colon. -/
theorem Language.noColon_of_ofFile? {path : Text} (h : (ofFile? path).isSome = true) :
    path.toList.getLast? ≠ some (.char ':') := by
  have hall : ∀ ext ∈ allExtensions, ext ≠ "" ∧ .char ':' ∉ ext.toList := by decide
  obtain ⟨hsome, hcolon⟩ := hall _ (List.contains_iff_mem.1 ((isSome_ofFile?_iff path).1 h))
  have hsuffix := extension_suffix path
  have hne : (extension path).toList ≠ [] := by
    intro hnil
    rw [Text.toList_eq_nil_iff.1 hnil] at hsome
    exact hsome (by decide)
  intro hlast
  rw [List.getLast?_eq_some_getLast (hsuffix.ne_nil hne), ← hsuffix.getLast hne,
    Option.some.injEq] at hlast
  exact hcolon (Text.colon_mem_lower (hlast ▸ List.getLast_mem hne))

namespace Scan

theorem relText_inj {a b : List Text} (ha : ∀ name ∈ a, IsEntryName name)
    (hb : ∀ name ∈ b, IsEntryName name) (hane : a ≠ []) (hbne : b ≠ [])
    (h : relText a = relText b) : a = b := by
  have hsplit : ∀ ns : List Text, (∀ name ∈ ns, IsEntryName name) → ns ≠ [] →
      (relText ns).toList.splitOn (.char '/') = ns.map Text.toList := by
    intro ns hns hne
    rw [relText, Text.toList_intercalate]
    apply List.splitOn_intercalate
    · intro l hl
      obtain ⟨name, hname, rfl⟩ := List.mem_map.1 hl
      exact (hns name hname).noSlash
    · simpa using hne
  have hmap : a.map Text.toList = b.map Text.toList := by
    rw [← hsplit a ha hane, ← hsplit b hb hbne, h]
  exact List.map_injective_iff.2 (fun s t hst => Text.toList_inj.1 hst) hmap

/-- A path ends as its last name does. -/
theorem suffix_relText (above : List Text) (name : Text) :
    name.toList <:+ (relText (above ++ [name])).toList := by
  rw [relText, Text.toList_intercalate, List.map_append]
  exact suffix_intercalate _ _ _

/-- The path of a file of a known language does not end in a colon. -/
theorem relText_noColon {path : List Text}
    (h : (Language.ofFile? (path.getLast?.getD "")).isSome = true) :
    (relText path).toList.getLast? ≠ some (.char ':') := by
  rcases List.eq_nil_or_concat path with rfl | ⟨above, name, rfl⟩
  · decide
  · rw [List.concat_eq_append, List.getLast?_concat, Option.getD_some] at h
    have hname : name.toList ≠ [] := by
      intro hnil
      rw [Text.toList_eq_nil_iff.1 hnil] at h
      revert h
      decide
    have hsuffix := suffix_relText above name
    rw [List.concat_eq_append, List.getLast?_eq_some_getLast (hsuffix.ne_nil hname),
      ← hsuffix.getLast hname, ← List.getLast?_eq_some_getLast hname]
    exact Language.noColon_of_ofFile? h

/-! ## Files that count -/

/-- Whether what stands at a path is listed: it is a file or leads to one, and passes the tests for a
file. -/
structure Counts (d : Disk) (r : Rules) (base path : List Text) (n : FileNode) : Prop where
  size : ∃ size, fileSize? d (base ++ path) n = .ok (some size) ∧
    r.takesSize (if d.unsized.contains (base ++ path) then none else some size) = .ok true
  name : r.takesName (path.getLast?.getD "") = true
  path : r.excluded (relText path) = .ok false

/-- Whether a file with a content counts. -/
structure Takes (d : Disk) (r : Rules) (base rel : List Text) (content : List UInt8) : Prop where
  name : r.takesName (rel.getLast?.getD "") = true
  path : r.excluded (relText rel) = .ok false
  size : r.takesSize (if d.unsized.contains (base ++ rel) then none else some content.length) =
    .ok true

/-- Whether the scan goes into a folder. -/
structure Opens (d : Disk) (r : Rules) (base rel : List Text) : Prop where
  path : r.excluded (relText rel ++ "/") = .ok false
  listed : d.unlistable.contains (base ++ rel) = false

/-- Whether a scan comes to a file that counts, looking at the folders on the way from a depth on. -/
structure Yields (d : Disk) (r : Rules) (base : List Text) (depth : Nat) (path : List Text) :
    Prop where
  file : ∃ content, d.raw? (base ++ path) = some (.file content) ∧ Takes d r base path content
  folders : ∀ q, q <+: path → q ≠ path → depth ≤ q.length → Opens d r base q

/-! ## One entry -/

/-- Looking at an entry lists it or nothing. -/
theorem visitFile_cases {d : Disk} {r : Rules} {base rel : List Text} {n : FileNode}
    {out : List (List Text)} (h : visitFile d r base rel n = .ok out) :
    out = [rel] ∧ Counts d r base rel n ∨ out = [] ∧ ¬ Counts d r base rel n := by
  unfold visitFile at h
  cases hsize : fileSize? d (base ++ rel) n with
  | error e =>
    rw [hsize] at h
    cases h
  | ok found =>
    rw [hsize] at h
    cases found with
    | none =>
      cases h
      refine Or.inr ⟨rfl, fun hc => ?_⟩
      obtain ⟨size, hs, -⟩ := hc.size
      cases hsize.symm.trans hs
    | some size =>
      simp only [bind, Except.bind] at h
      cases hname : r.takesName (rel.getLast?.getD "") with
      | false =>
        rw [hname] at h
        cases h
        exact Or.inr ⟨rfl, fun hc => by rw [hc.name] at hname; cases hname⟩
      | true =>
        rw [hname, Bool.not_true, if_neg Bool.false_ne_true] at h
        split at h
        · cases h
        · next hpath =>
          cases h
          exact Or.inr ⟨rfl, fun hc => by rw [hc.path] at hpath; cases hpath⟩
        · next hpath =>
          split at h
          · cases h
          · next taken htaken =>
            cases h
            cases taken with
            | true => exact Or.inl ⟨rfl, ⟨size, hsize, htaken⟩, hname, hpath⟩
            | false =>
              refine Or.inr ⟨rfl, fun hc => ?_⟩
              obtain ⟨size', hs, htrue⟩ := hc.size
              cases hsize.symm.trans hs
              cases htaken.symm.trans htrue

theorem mem_visitFile_iff {d : Disk} {r : Rules} {base rel : List Text} {n : FileNode}
    {out : List (List Text)} (h : visitFile d r base rel n = .ok out) (x : List Text) :
    x ∈ out ↔ x = rel ∧ Counts d r base rel n := by
  rcases visitFile_cases h with ⟨rfl, hc⟩ | ⟨rfl, hc⟩
  · simp [hc]
  · simp [hc]

theorem counts_file_iff {d : Disk} {r : Rules} {base rel : List Text} {content : List UInt8} :
    Counts d r base rel (.file content) ↔ Takes d r base rel content := by
  constructor
  · rintro ⟨⟨size, hsize, htaken⟩, hname, hpath⟩
    cases hsize
    exact ⟨hname, hpath, htaken⟩
  · rintro ⟨hname, hpath, htaken⟩
    exact ⟨⟨_, rfl, htaken⟩, hname, hpath⟩

theorem mem_visitFile {d : Disk} {r : Rules} {base rel : List Text} {content : List UInt8}
    {out : List (List Text)} (h : visitFile d r base rel (.file content) = .ok out)
    (x : List Text) : x ∈ out ↔ x = rel ∧ Takes d r base rel content := by
  rw [mem_visitFile_iff h, counts_file_iff]

theorem visitEntries_eq (d : Disk) (r : Rules) (base rel : List Text)
    (entries : List (Text × FileNode)) :
    visitEntries d r base rel entries =
      entries.map fun e => (e.1, visit d r base (rel ++ [e.1]) e.2) := by
  induction entries with
  | nil => simp [visitEntries]
  | cons e rest ih => simp [visitEntries, ih]

/-- The results of entries together, whatever their order. -/
theorem mem_inNameOrder {results : List (Text × Except Error (List (List Text)))}
    {out : List (List Text)} (h : inNameOrder results = .ok out) (x : List Text) :
    x ∈ out ↔ ∃ e ∈ results, ∃ found, e.2 = .ok found ∧ x ∈ found := by
  unfold inNameOrder at h
  dsimp only at h
  cases hm : (sortBy (fun a b => !decide (b.1 < a.1)) results).mapM (·.2) with
  | error e => rw [hm] at h; cases h
  | ok lists =>
    rw [hm] at h
    cases h
    obtain ⟨hleft, hright⟩ := of_mapM_ok hm
    rw [List.mem_flatten]
    constructor
    · rintro ⟨found, hfound, hx⟩
      obtain ⟨e, he, hf⟩ := hright found hfound
      exact ⟨e, by simpa using he, found, hf, hx⟩
    · rintro ⟨e, he, found, hf, hx⟩
      obtain ⟨found', hfound', hf'⟩ := hleft e (by simpa using he)
      rw [hf] at hf'
      cases hf'
      exact ⟨found, hfound', hx⟩

theorem ok_of_inNameOrder {results : List (Text × Except Error (List (List Text)))}
    {out : List (List Text)} (h : inNameOrder results = .ok out) :
    ∀ e ∈ results, ∃ found, e.2 = .ok found := by
  unfold inNameOrder at h
  dsimp only at h
  cases hm : (sortBy (fun a b => !decide (b.1 < a.1)) results).mapM (·.2) with
  | error e => rw [hm] at h; cases h
  | ok lists =>
    intro e he
    obtain ⟨found, -, hf⟩ := (of_mapM_ok hm).1 e (by simpa using he)
    exact ⟨found, hf⟩

/-! ## Folders -/

/-- The files of a folder are those below its entries. -/
theorem mem_visitEntries {d : Disk} {r : Rules} {base rel : List Text}
    {entries : List (Text × FileNode)} {out : List (List Text)}
    (hfolder : d.raw? (base ++ rel) = some (.folder entries))
    (hentry : ∀ e ∈ entries, ∀ found, visit d r base (rel ++ [e.1]) e.2 = .ok found →
      ∀ x, x ∈ found ↔ rel ++ [e.1] <+: x ∧ Yields d r base (rel.length + 1) x)
    (h : inNameOrder (visitEntries d r base rel entries) = .ok out) (x : List Text) :
    x ∈ out ↔ rel <+: x ∧ Yields d r base (rel.length + 1) x := by
  rw [visitEntries_eq] at h
  have hok := ok_of_inNameOrder h
  rw [mem_inNameOrder h]
  constructor
  · rintro ⟨_, hresult, found, hf, hx⟩
    obtain ⟨e, he, rfl⟩ := List.mem_map.1 hresult
    obtain ⟨hstart, hy⟩ := (hentry e he found hf x).1 hx
    exact ⟨(List.prefix_append rel [e.1]).trans hstart, hy⟩
  · rintro ⟨⟨t, rfl⟩, hy⟩
    obtain ⟨content, hfile, -⟩ := hy.file
    unfold Disk.raw? at hfile hfolder
    rw [← List.append_assoc, FileNode.find?_append, hfolder, Option.bind_some] at hfile
    cases t with
    | nil => cases hfile
    | cons name t =>
      rw [FileNode.find?_folder] at hfile
      obtain ⟨n, hn, -⟩ := Option.bind_eq_some_iff.1 hfile
      have he := FileNode.mem_of_lookup hn
      have he' := List.mem_map_of_mem (f := fun e => (e.1, visit d r base (rel ++ [e.1]) e.2)) he
      obtain ⟨found, hf⟩ := hok _ he'
      refine ⟨_, he', found, hf, (hentry _ he found hf _).2 ⟨⟨t, ?_⟩, hy⟩⟩
      simp

/-- A folder on the way is looked at, and then what is below it. -/
theorem yields_folder_iff {d : Disk} {r : Rules} {base rel x : List Text}
    {entries : List (Text × FileNode)} (hfolder : d.raw? (base ++ rel) = some (.folder entries))
    (hx : rel <+: x) :
    Yields d r base rel.length x ↔ Opens d r base rel ∧ Yields d r base (rel.length + 1) x := by
  constructor
  · intro hy
    refine ⟨hy.folders rel hx ?_ (Nat.le_refl _), hy.file, fun q hq hne hlen => ?_⟩
    · rintro rfl
      obtain ⟨content, hfile, -⟩ := hy.file
      rw [hfolder] at hfile
      cases hfile
    · exact hy.folders q hq hne (Nat.le_of_succ_le hlen)
  · rintro ⟨hopens, hy⟩
    refine ⟨hy.file, fun q hq hne hlen => ?_⟩
    rcases Nat.eq_or_lt_of_le hlen with heq | hlt
    · have hqr : q = rel := (List.prefix_of_prefix_length_le hx hq hlen).eq_of_length heq |>.symm
      exact hqr ▸ hopens
    · exact hy.folders q hq hne hlt

/-- What a scan yields at and below a node. -/
theorem mem_visit {d : Disk} {r : Rules} {base rel : List Text} {n : FileNode}
    {out : List (List Text)} (hd : d.LinkFree base) (hn : d.raw? (base ++ rel) = some n)
    (h : visit d r base rel n = .ok out) (x : List Text) :
    x ∈ out ↔ rel <+: x ∧ Yields d r base rel.length x := by
  induction n using FileNode.inductionOn generalizing rel out x with
  | link target => exact absurd hn (hd.noLinks rel target)
  | file content =>
    rw [visit] at h
    rw [mem_visitFile h]
    constructor
    · rintro ⟨rfl, ht⟩
      refine ⟨List.prefix_refl _, ⟨content, hn, ht⟩, fun q hq hne hlen => ?_⟩
      exact absurd (hq.eq_of_length_le hlen) hne
    · rintro ⟨⟨t, rfl⟩, hy⟩
      obtain ⟨content', hfile, ht⟩ := hy.file
      unfold Disk.raw? at hn hfile
      rw [← List.append_assoc, FileNode.find?_append, hn, Option.bind_some] at hfile
      cases t with
      | nil =>
        cases hfile
        rw [List.append_nil] at ht ⊢
        exact ⟨rfl, ht⟩
      | cons name t => cases hfile
  | folder entries ih =>
    have hentry : ∀ e ∈ entries, ∀ found, visit d r base (rel ++ [e.1]) e.2 = .ok found →
        ∀ x, x ∈ found ↔ rel ++ [e.1] <+: x ∧ Yields d r base (rel.length + 1) x := by
      intro e he found hf x
      have hx := ih e he (hd.raw?_entry hn he) hf x
      rwa [List.length_append, List.length_singleton] at hx
    rw [visit] at h
    rw [and_congr_right (yields_folder_iff hn)]
    split at h
    · cases h
    · next hpath =>
      cases h
      exact ⟨nofun, fun hx => by rw [hx.2.1.path] at hpath; cases hpath⟩
    · next hpath =>
      split at h
      · next hlisted =>
        cases h
        exact ⟨nofun, fun hx => by rw [hx.2.1.listed] at hlisted; cases hlisted⟩
      · next hlisted =>
        rw [mem_visitEntries hn hentry h]
        have hopens : Opens d r base rel := ⟨hpath, Bool.eq_false_iff.2 hlisted⟩
        simp [hopens]

/-- The files that a scan of a folder yields. The folder itself is not looked at. -/
theorem mem_files {d : Disk} {r : Rules} {base : SourcePath} {out : List (List Text)}
    (hd : d.LinkFree base.parts) (h : files d base (.ok r) = .ok out) (path : List Text) :
    path ∈ out ↔ Yields d r base.parts 1 path := by
  unfold files at h
  split at h
  · next entries hs =>
    have hfolder : d.raw? (base.parts ++ []) = some (.folder entries) := by
      rw [List.append_nil]
      exact Disk.stat_direct hd.direct_base hs
    split at h
    · cases h
    · have hentry : ∀ e ∈ entries, ∀ found, visit d r base.parts ([] ++ [e.1]) e.2 = .ok found →
          ∀ x, x ∈ found ↔ [] ++ [e.1] <+: x ∧ Yields d r base.parts 1 x :=
        fun e he found hf x => mem_visit hd (hd.raw?_entry hfolder he) hf x
      rw [mem_visitEntries hfolder hentry h]
      simp
  · cases h
  · cases h

/-! ## Source files -/

/-- The rules of a configuration do not depend on the disk. -/
theorem sources_ok {d : Disk} {base : SourcePath} {config : Value} {out : List (List Text)}
    (h : sources d base config = .ok out) : ∃ r : Rules, r.extensions = Language.allExtensions ∧
      ∀ d', sources d' base config = files d' base (.ok r) := by
  unfold sources at h ⊢
  dsimp only at h ⊢
  split at h
  · next globs size hglobs hsize =>
    split at h
    · cases h
    · next n hn =>
      cases hr : rulesOf globs n with
      | error e =>
        rw [hr] at h
        unfold files at h
        split at h
        · split at h <;> cases h
        · cases h
        · cases h
      | ok r =>
        refine ⟨r, ?_, fun d' => rfl⟩
        unfold rulesOf at hr
        cases hitems : globs.elements with
        | error e => rw [hitems] at hr; cases hr
        | ok items => rw [hitems] at hr; cases hr; rfl
  · cases h
  · cases h

/-- New content of one file does not change whether another is yielded. -/
theorem yields_writeFile {d : Disk} {r : Rules} {base path other : List Text} {old : List UInt8}
    (hd : d.LinkFree base) (hfile : d.raw? (base ++ path) = some (.file old)) (new : List UInt8)
    (hne : other ≠ path) (depth : Nat) :
    Yields (d.writeFile (base ++ path) new) r base depth other ↔ Yields d r base depth other := by
  have halike := (hd.raw?_writeFile hfile new (base ++ other)).2 (by simpa using hne)
  have hsame : ∀ content, (d.writeFile (base ++ path) new).raw? (base ++ other) =
      some (.file content) ↔ d.raw? (base ++ other) = some (.file content) := by
    intro content
    rcases halike with heq | ⟨es, es', hes, hes', -⟩
    · rw [heq]
    · rw [hes, hes']
      simp
  constructor
  · rintro ⟨⟨content, hc, ht⟩, hfolders⟩
    exact ⟨⟨content, (hsame content).1 hc, ⟨ht.name, ht.path, ht.size⟩⟩,
      fun q hq hqne hlen => ⟨(hfolders q hq hqne hlen).path, (hfolders q hq hqne hlen).listed⟩⟩
  · rintro ⟨⟨content, hc, ht⟩, hfolders⟩
    exact ⟨⟨content, (hsame content).2 hc, ⟨ht.name, ht.path, ht.size⟩⟩,
      fun q hq hqne hlen => ⟨(hfolders q hq hqne hlen).path, (hfolders q hq hqne hlen).listed⟩⟩

/-- With new content of one file, the other source files are the same. -/
theorem mem_sources_writeFile {d : Disk} {base : SourcePath} {config : Value}
    {path other : List Text} {old new : List UInt8} {out out' : List (List Text)}
    (hd : d.LinkFree base.parts) (hfile : d.raw? (base.parts ++ path) = some (.file old))
    (h : sources d base config = .ok out)
    (h' : sources (d.writeFile (base.parts ++ path) new) base config = .ok out')
    (hne : other ≠ path) : other ∈ out' ↔ other ∈ out := by
  obtain ⟨r, -, hr⟩ := sources_ok h
  rw [hr] at h h'
  rw [mem_files hd h, mem_files (hd.writeFile hfile new) h', yields_writeFile hd hfile new hne]

/-- A source file below a folder without links. -/
structure IsSource (d : Disk) (base path : List Text) : Prop where
  file : ∃ content, d.raw? (base ++ path) = some (.file content)
  names : ∀ name ∈ path, IsEntryName name
  nonempty : path ≠ []
  language : (Language.ofFile? (path.getLast?.getD "")).isSome = true
  noColon : (relText path).toList.getLast? ≠ some (.char ':')

theorem isSource_of_mem {d : Disk} {base : SourcePath} {config : Value} {path : List Text}
    {out : List (List Text)} (hd : d.LinkFree base.parts) (h : sources d base config = .ok out)
    (hpath : path ∈ out) : IsSource d base.parts path := by
  obtain ⟨r, hext, hr⟩ := sources_ok h
  rw [hr] at h
  obtain ⟨content, hfile, ht⟩ := ((mem_files hd h path).1 hpath).file
  have hnames : ∀ name ∈ path, IsEntryName name := by
    intro name hname
    exact (hd.direct hfile).names name (List.mem_append_right _ hname)
  have hname := ht.name
  rw [Rules.takesName, hext] at hname
  have hlanguage := (Language.isSome_ofFile?_iff _).2 hname
  refine ⟨⟨content, hfile⟩, hnames, ?_, hlanguage, relText_noColon hlanguage⟩
  rintro rfl
  obtain ⟨entries, hfolder⟩ := hd.folder
  rw [List.append_nil, hfolder] at hfile
  cases hfile

end Scan

end CodeAtlas
