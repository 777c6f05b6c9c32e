import CodeAtlas.Proofs.File.Reach

/-!
# The files that a scan lists

A scan walks a tree and prunes on the way. What it lists can be read off the tree itself: the paths
of files, and of links to files, that pass the tests for a file and lie below folders that pass the
tests for a folder (`Eligible`). It comes to an end if no such folder holds a link about which the
disk cannot say where it leads (`Stuck`):

    files d root (.ok (.plain extensions globs limit)) = .ok out →
      out.Pairwise (· < ·) ∧ (path ∈ out ↔ Eligible d … path)                     (files_plain)

Paths are compared name by name, which is not how they compare in writing.
-/

namespace CodeAtlas.Scan

variable {d : Disk} {r : Rules} {base rel path : List Text} {n k : FileNode}
  {out : List (List Text)}

/-! ## What is listed -/

theorem met_leaf_iff (hn : ∀ entries, n ≠ .folder entries) :
    Met d r base rel n path k ↔ path = rel ∧ k = n := by
  constructor
  · intro h
    cases h with
    | itself => exact ⟨rfl, rfl⟩
    | inside => exact absurd rfl (hn _)
  · rintro ⟨rfl, rfl⟩
    exact .itself hn

theorem met_folder_iff {entries : List (Text × FileNode)} :
    Met d r base rel (.folder entries) path k ↔
      Opens d r base rel ∧ ∃ e ∈ entries, Met d r base (rel ++ [e.1]) e.2 path k := by
  constructor
  · intro h
    cases h with
    | itself hn => exact absurd rfl (hn entries)
    | inside ho he h => exact ⟨ho, _, he, h⟩
  · rintro ⟨ho, e, he, h⟩
    exact .inside ho he h

theorem mem_leaf_iff (hn : ∀ entries, n ≠ .folder entries)
    (h : visitFile d r base rel n = .ok out) (x : List Text) :
    x ∈ out ↔ ∃ k, Met d r base rel n x k ∧ Counts d r base x k := by
  simp only [mem_visitFile_iff h, met_leaf_iff hn]
  constructor
  · rintro ⟨rfl, hc⟩
    exact ⟨n, ⟨rfl, rfl⟩, hc⟩
  · rintro ⟨k, ⟨rfl, rfl⟩, hc⟩
    exact ⟨rfl, hc⟩

theorem mem_visitEntries_iff {entries : List (Text × FileNode)}
    (hentry : ∀ e ∈ entries, ∀ found, visit d r base (rel ++ [e.1]) e.2 = .ok found →
      ∀ x, x ∈ found ↔ ∃ k, Met d r base (rel ++ [e.1]) e.2 x k ∧ Counts d r base x k)
    (h : inNameOrder (visitEntries d r base rel entries) = .ok out) (x : List Text) :
    x ∈ out ↔ ∃ k, (∃ e ∈ entries, Met d r base (rel ++ [e.1]) e.2 x k) ∧ Counts d r base x k := by
  rw [visitEntries_eq] at h
  have hok := ok_of_inNameOrder h
  rw [mem_inNameOrder h]
  constructor
  · rintro ⟨_, hresult, found, hf, hx⟩
    obtain ⟨e, he, rfl⟩ := List.mem_map.1 hresult
    obtain ⟨k, hm, hc⟩ := (hentry e he found hf x).1 hx
    exact ⟨k, ⟨e, he, hm⟩, hc⟩
  · rintro ⟨k, ⟨e, he, hm⟩, hc⟩
    have hresult := List.mem_map_of_mem
      (f := fun e => (e.1, visit d r base (rel ++ [e.1]) e.2)) he
    obtain ⟨found, hf⟩ := hok _ hresult
    exact ⟨_, hresult, found, hf, (hentry e he found hf x).2 ⟨k, hm, hc⟩⟩

/-- At and below a node, what is listed is what is met and counts. -/
theorem mem_visit_iff (hr : r.Total) (h : visit d r base rel n = .ok out) (x : List Text) :
    x ∈ out ↔ ∃ k, Met d r base rel n x k ∧ Counts d r base x k := by
  induction n using FileNode.inductionOn generalizing rel out x with
  | file content =>
    rw [visit] at h
    exact mem_leaf_iff (fun _ hfolder => by cases hfolder) h x
  | link target =>
    rw [visit] at h
    exact mem_leaf_iff (fun _ hfolder => by cases hfolder) h x
  | folder entries ih =>
    simp only [met_folder_iff]
    by_cases ho : Opens d r base rel
    · rw [visit_folder ho] at h
      rw [mem_visitEntries_iff (fun e he found hf => ih e he hf) h]
      simp only [ho, true_and]
    · rw [(opens_or_visit_nil hr entries).resolve_left ho] at h
      cases h
      simp [ho]

/-- What stands at a path below a node, the folders between being gone into. -/
structure Stands (d : Disk) (r : Rules) (base rel : List Text) (n : FileNode) (t : List Text)
    (k : FileNode) : Prop where
  found : n.find? t = some k
  leaf : ∀ entries, k ≠ .folder entries
  folders : ∀ q, q <+: t → q ≠ [] → q ≠ t → Opens d r base (rel ++ q)

theorem stands_leaf_iff (hn : ∀ entries, n ≠ .folder entries)
    (hnone : ∀ p ps, n.find? (p :: ps) = none) {t : List Text} :
    Stands d r base rel n t k ↔ t = [] ∧ k = n := by
  constructor
  · intro h
    cases t with
    | nil => exact ⟨rfl, by simpa using h.found.symm⟩
    | cons p ps =>
      have hfound := h.found
      rw [hnone] at hfound
      cases hfound
  · rintro ⟨rfl, rfl⟩
    exact ⟨FileNode.find?_nil k, hn, fun q hq hne => absurd (List.prefix_nil.1 hq) hne⟩

theorem stands_folder_iff {entries : List (Text × FileNode)}
    (hd : (entries.map (·.1)).Nodup) {t : List Text} :
    Stands d r base rel (.folder entries) t k ↔ ∃ e ∈ entries, ∃ t', t = e.1 :: t' ∧
      Stands d r base (rel ++ [e.1]) e.2 t' k ∧ (t' ≠ [] → Opens d r base (rel ++ [e.1])) := by
  constructor
  · rintro ⟨hfound, hleaf, hfolders⟩
    cases t with
    | nil =>
      rw [FileNode.find?_nil, Option.some.injEq] at hfound
      exact absurd hfound.symm (hleaf entries)
    | cons name t =>
      rw [FileNode.find?_folder] at hfound
      obtain ⟨m, hm, hfound⟩ := Option.bind_eq_some_iff.1 hfound
      refine ⟨(name, m), FileNode.mem_of_lookup hm, t, rfl, ⟨hfound, hleaf, fun q hq _ hne => ?_⟩,
        fun ht => ?_⟩
      · have hq' := hfolders (name :: q) ((List.prefix_cons_inj name).2 hq) (List.cons_ne_nil _ _)
          fun heq => hne (List.cons.inj heq).2
        rwa [List.append_assoc]
      · exact hfolders [name] (List.prefix_append [name] t) (List.cons_ne_nil _ _)
          fun heq => ht (List.cons.inj heq).2.symm
  · rintro ⟨e, he, t', rfl, ⟨hfound, hleaf, hfolders⟩, ho⟩
    refine ⟨?_, hleaf, fun q hq hnil hne => ?_⟩
    · rw [FileNode.find?_folder, (FileNode.lookup_eq_some_iff hd).2 he, Option.bind_some, hfound]
    · obtain ⟨q', rfl, hq'⟩ := (List.prefix_cons_iff.1 hq).resolve_left hnil
      have hne' : q' ≠ t' := fun heq => hne (by rw [heq])
      cases q' with
      | nil => exact ho hne'.symm
      | cons name q' =>
        have ho' := hfolders _ hq' (List.cons_ne_nil _ _) hne'
        rwa [List.append_assoc] at ho'

/-- What is met stands in the tree. -/
theorem met_iff (hn : n.WellNamed) :
    Met d r base rel n path k ↔ ∃ t, path = rel ++ t ∧ Stands d r base rel n t k ∧
      (t ≠ [] → Opens d r base rel) := by
  have hleaf : ∀ m : FileNode, (∀ entries, m ≠ .folder entries) →
      (∀ p ps, m.find? (p :: ps) = none) → ∀ rel,
      (Met d r base rel m path k ↔ ∃ t, path = rel ++ t ∧ Stands d r base rel m t k ∧
        (t ≠ [] → Opens d r base rel)) := by
    intro m hm hnone rel
    simp only [met_leaf_iff hm, stands_leaf_iff hm hnone]
    constructor
    · rintro ⟨rfl, rfl⟩
      exact ⟨[], by simp, ⟨rfl, rfl⟩, fun h => absurd rfl h⟩
    · rintro ⟨_, rfl, ⟨rfl, rfl⟩, -⟩
      exact ⟨List.append_nil _, rfl⟩
  induction n using FileNode.inductionOn generalizing rel with
  | file content => exact hleaf (.file content) nofun (fun _ _ => rfl) rel
  | link target => exact hleaf (.link target) nofun (fun _ _ => rfl) rel
  | folder entries ih =>
    rw [met_folder_iff]
    simp only [stands_folder_iff (hn.distinct [] entries rfl)]
    constructor
    · rintro ⟨ho, e, he, hm⟩
      obtain ⟨t, rfl, hstands⟩ := (ih e he (hn.entry he)).1 hm
      exact ⟨e.1 :: t, by simp, ⟨e, he, t, rfl, hstands⟩, fun _ => ho⟩
    · rintro ⟨_, rfl, ⟨e, he, t, rfl, hstands⟩, ho⟩
      exact ⟨ho (List.cons_ne_nil _ _), e, he, (ih e he (hn.entry he)).2 ⟨t, by simp, hstands⟩⟩

/-! ## Order -/

/-- Below different names, paths are in the order of the names. -/
theorem lt_of_names_lt {a b : Text} {x y : List Text} (hab : a < b) (hx : rel ++ [a] <+: x)
    (hy : rel ++ [b] <+: y) : x < y := by
  obtain ⟨s, rfl⟩ := hx
  obtain ⟨t, rfl⟩ := hy
  rw [List.append_assoc, List.append_assoc]
  exact List.append_left_lt (List.Lex.rel hab)

example : (["a", "x.py"] : List Text) < ["a-b.py"] ∧
    relText ["a-b.py"] < relText ["a", "x.py"] := by
  decide

/-- Sorted by names that are distinct, what comes first has the smaller name. -/
theorem pairwise_sorted {results : List (Text × Except Error (List (List Text)))}
    (hd : (results.map (·.1)).Nodup) :
    (sortBy (fun a b => !decide (b.1 < a.1)) results).Pairwise fun a b => a.1 < b.1 := by
  have hsorted : (sortBy (fun a b => !decide (b.1 < a.1)) results).Pairwise
      fun a b => (!decide (b.1 < a.1)) = true := by
    refine pairwise_sortBy (fun a b c hab hbc => ?_) (fun a b => ?_) results
    · simp only [Bool.not_eq_true', decide_eq_false_iff_not, Std.not_lt] at hab hbc ⊢
      exact Std.le_trans hab hbc
    · simp only [Bool.or_eq_true, Bool.not_eq_true', decide_eq_false_iff_not, Std.not_lt]
      exact Std.le_total ..
  have hdistinct : ((sortBy (fun a b => !decide (b.1 < a.1)) results).map (·.1)).Nodup :=
    ((perm_sortBy results _).map _).nodup_iff.2 hd
  rw [List.nodup_iff_pairwise_ne, List.pairwise_map] at hdistinct
  refine (hsorted.and hdistinct).imp fun ⟨hle, hne⟩ => ?_
  simp only [Bool.not_eq_true', decide_eq_false_iff_not, Std.not_lt] at hle
  exact Std.lt_of_le_of_ne hle hne

/-- The lists of entries, each in order and below the entry's own name, are in order together. -/
theorem pairwise_inNameOrder {results : List (Text × Except Error (List (List Text)))}
    (hd : (results.map (·.1)).Nodup)
    (hresult : ∀ e ∈ results, ∀ found, e.2 = .ok found →
      found.Pairwise (· < ·) ∧ ∀ x ∈ found, rel ++ [e.1] <+: x)
    (h : inNameOrder results = .ok out) : out.Pairwise (· < ·) := by
  unfold inNameOrder at h
  dsimp only at h
  cases hm : (sortBy (fun a b => !decide (b.1 < a.1)) results).mapM (·.2) with
  | error e =>
    rw [hm] at h
    cases h
  | ok lists =>
    rw [hm] at h
    cases h
    have hresult' : ∀ e ∈ sortBy (fun a b => !decide (b.1 < a.1)) results, ∀ found,
        e.2 = .ok found → found.Pairwise (· < ·) ∧ ∀ x ∈ found, rel ++ [e.1] <+: x :=
      fun e he => hresult e (mem_sortBy.1 he)
    have hlists := map_eq_of_mapM_ok hm
    rw [List.pairwise_flatten]
    constructor
    · intro found hfound
      obtain ⟨e, he, hf⟩ := (of_mapM_ok hm).2 found hfound
      exact (hresult' e he found hf).1
    · have hpairs : (lists.map Except.ok).Pairwise fun f g : Except Error (List (List Text)) =>
          ∀ x, f = .ok x → ∀ y, g = .ok y → ∀ p ∈ x, ∀ q ∈ y, p < q := by
        rw [← hlists, List.pairwise_map]
        refine (pairwise_sorted hd).imp_of_mem fun ha hb hab x hx y hy p hp q hq => ?_
        exact lt_of_names_lt hab ((hresult' _ ha x hx).2 p hp) ((hresult' _ hb y hy).2 q hq)
      exact (List.pairwise_map.1 hpairs).imp fun hxy => hxy _ rfl _ rfl

theorem pairwise_visitEntries {entries : List (Text × FileNode)}
    (hd : (entries.map (·.1)).Nodup)
    (hentry : ∀ e ∈ entries, ∀ found, visit d r base (rel ++ [e.1]) e.2 = .ok found →
      found.Pairwise (· < ·) ∧ ∀ x ∈ found, rel ++ [e.1] <+: x)
    (h : inNameOrder (visitEntries d r base rel entries) = .ok out) :
    out.Pairwise (· < ·) ∧ ∀ x ∈ out, rel <+: x := by
  rw [visitEntries_eq] at h
  have hresult : ∀ f ∈ entries.map fun e => (e.1, visit d r base (rel ++ [e.1]) e.2), ∀ found,
      f.2 = .ok found → found.Pairwise (· < ·) ∧ ∀ x ∈ found, rel ++ [f.1] <+: x := by
    intro f hf
    obtain ⟨e, he, rfl⟩ := List.mem_map.1 hf
    exact hentry e he
  constructor
  · exact pairwise_inNameOrder (by rw [List.map_map]; exact hd) hresult h
  · intro x hx
    obtain ⟨f, hf, found, hfound, hx⟩ := (mem_inNameOrder h x).1 hx
    exact (List.prefix_append rel [f.1]).trans ((hresult f hf found hfound).2 x hx)

/-- What an entry contributes lies at or below it and is in order. -/
theorem pairwise_visit (hr : r.Total) (hn : n.WellNamed) (h : visit d r base rel n = .ok out) :
    out.Pairwise (· < ·) ∧ ∀ x ∈ out, rel <+: x := by
  have hleaf : ∀ m rel out, visitFile d r base rel m = .ok out →
      out.Pairwise (· < ·) ∧ ∀ x ∈ out, rel <+: x := by
    intro m rel out hm
    rcases visitFile_cases hm with ⟨rfl, -⟩ | ⟨rfl, -⟩
    · exact ⟨List.pairwise_singleton _ _, by simp⟩
    · exact ⟨.nil, nofun⟩
  induction n using FileNode.inductionOn generalizing rel out with
  | file content => exact hleaf (.file content) rel out (by rwa [visit] at h)
  | link target => exact hleaf (.link target) rel out (by rwa [visit] at h)
  | folder entries ih =>
    have hcases : Opens d r base rel ∨ visit d r base rel (.folder entries) = .ok [] :=
      opens_or_visit_nil hr entries
    rcases hcases with ho | hnil
    · rw [visit_folder ho] at h
      exact pairwise_visitEntries (hn.distinct [] entries rfl)
        (fun e he found hf => ih e he (hn.entry he) hf) h
    · rw [hnil] at h
      cases h
      exact ⟨.nil, nofun⟩

/-! ## Scans -/

section

variable {root : SourcePath} {entries : List (Text × FileNode)}

theorem files_eq (hs : d.stat root.parts = .ok (.folder entries))
    (hl : d.unlistable.contains root.parts = false) :
    files d root (.ok r) = inNameOrder (visitEntries d r root.parts [] entries) := by
  unfold files
  rw [hs]
  dsimp only
  rw [if_neg (by rw [hl]; exact Bool.false_ne_true)]

/-- What a scan meets stands in the scanned folder. -/
theorem meets_iff (hn : (FileNode.folder entries).WellNamed)
    (hs : d.stat root.parts = .ok (.folder entries))
    (hl : d.unlistable.contains root.parts = false) :
    Meets d r root path k ↔ Stands d r root.parts [] (.folder entries) path k := by
  rw [stands_folder_iff (hn.distinct [] entries rfl)]
  constructor
  · rintro ⟨-, entries', hs', e, he, hm⟩
    cases hs.symm.trans hs'
    obtain ⟨t, rfl, hstands⟩ := (met_iff (hn.entry he)).1 hm
    exact ⟨e, he, t, rfl, hstands⟩
  · rintro ⟨e, he, t, rfl, hstands⟩
    exact ⟨hl, entries, hs, e, he, (met_iff (hn.entry he)).2 ⟨t, rfl, hstands⟩⟩

/-- A scan of a folder that can be listed lists what it meets and counts, in order, or fails at a
blocked link that it meets. -/
theorem files_listed_or_blocked (hr : r.Total) (hn : (FileNode.folder entries).WellNamed)
    (hs : d.stat root.parts = .ok (.folder entries))
    (hl : d.unlistable.contains root.parts = false) :
    (∃ out, files d root (.ok r) = .ok out ∧ out.Pairwise (· < ·) ∧
      (∀ x, x ∈ out ↔ ∃ k, Stands d r root.parts [] (.folder entries) x k ∧
        Counts d r root.parts x k) ∧
      ∀ x k e, Stands d r root.parts [] (.folder entries) x k →
        ¬ Blocked d (root.parts ++ x) k e) ∨
    ∃ x k e, Stands d r root.parts [] (.folder entries) x k ∧ Blocked d (root.parts ++ x) k e ∧
      files d root (.ok r) = .error (.lookup e) := by
  cases h : files d root (.ok r) with
  | error f =>
    right
    rw [files_eq hs hl, visitEntries_eq] at h
    obtain ⟨_, hresult, hf⟩ := inNameOrder_error h
    obtain ⟨e, he, rfl⟩ := List.mem_map.1 hresult
    obtain ⟨x, k, e', hm, hb, rfl⟩ := blocked_of_visit_error hr hf
    exact ⟨x, k, e', (meets_iff hn hs hl).1 ⟨hl, entries, hs, e, he, hm⟩, hb, rfl⟩
  | ok out =>
    left
    have hlist := h
    rw [files_eq hs hl] at hlist
    refine ⟨out, rfl, ?_, fun x => ?_, fun x k e hx hb => ?_⟩
    · exact (pairwise_visitEntries (hn.distinct [] entries rfl)
        (fun e he found hf => pairwise_visit hr (hn.entry he) hf) hlist).1
    · rw [mem_visitEntries_iff (fun e he found hf => mem_visit_iff hr hf) hlist]
      simp only [← meets_iff hn hs hl]
      constructor
      · rintro ⟨k, ⟨e, he, hm⟩, hc⟩
        exact ⟨k, ⟨hl, entries, hs, e, he, hm⟩, hc⟩
      · rintro ⟨k, ⟨-, entries', hs', hm⟩, hc⟩
        cases hs.symm.trans hs'
        exact ⟨k, hm, hc⟩
    · obtain ⟨f, hf⟩ := ((meets_iff hn hs hl).2 hx).files_error hb
      cases h.symm.trans hf

end

/-! ## Eligible files -/

/-- What stands at a path is a file with a content, or a link to one. -/
def Holds (d : Disk) (path : List Text) (n : FileNode) (content : List UInt8) : Prop :=
  n = .file content ∨ (∃ target, n = .link target) ∧ d.stat path = .ok (.file content)

/-- All that lies between the top of a tree and a path is a folder that can be listed, and no glob
matches it with a slash at the end. -/
def Reaches (d : Disk) (base : List Text) (top : FileNode) (globs path : List Text) : Prop :=
  ∀ q, q <+: path → q ≠ [] → q ≠ path → (∃ entries, top.find? q = some (.folder entries)) ∧
    base ++ q ∉ d.unlistable ∧ ∀ g ∈ globs, Glob.matches g (relText q ++ "/") = false

/-- Nothing lies between the top of a tree and its entries. -/
theorem reaches_entry {top : FileNode} {globs : List Text} (name : Text) :
    Reaches d base top globs [name] := by
  intro q hq hnil hne
  obtain ⟨t, rfl, ht⟩ := (List.prefix_cons_iff.1 hq).resolve_left hnil
  rw [List.prefix_nil.1 ht] at hne
  exact absurd rfl hne

/-- The files of a tree that a scan is to list. -/
structure Eligible (d : Disk) (base : List Text) (top : FileNode) (extensions globs : List Text)
    (limit : Rat) (path : List Text) : Prop where
  file : ∃ n content, top.find? path = some n ∧ Holds d (base ++ path) n content ∧
    (limit ≤ 0 ∨ base ++ path ∉ d.unsized ∧ (content.length : Rat) ≤ 1024 * limit)
  name : Text.lower (extension (path.getLast?.getD "")) ∈ extensions.map Text.lower
  included : ∀ g ∈ globs, Glob.matches g (relText path) = false
  folders : Reaches d base top globs path

/-- A link in a tree about which the disk cannot say where it leads, and why. -/
structure Stuck (d : Disk) (base : List Text) (top : FileNode) (globs path : List Text)
    (e : LookupError) : Prop where
  link : ∃ target, top.find? path = some (.link target)
  stat : d.stat (base ++ path) = .error e
  notMissing : e ≠ .missing
  folders : Reaches d base top globs path

section

variable {extensions globs : List Text} {limit : Rat} {top : FileNode}

theorem total_plain : (Rules.plain extensions globs limit).Total :=
  ⟨fun _ _ => nofun, fun _ _ => nofun⟩

theorem fileSize?_some_iff {size : Nat} : fileSize? d path n = .ok (some size) ↔
    ∃ content, Holds d path n content ∧ content.length = size := by
  cases n with
  | file content => simp [fileSize?, Holds]
  | folder entries => simp [fileSize?, Holds]
  | link target =>
    rw [fileSize?]
    split
    · next content hs => simp [Holds, hs]
    · next m hnot hs =>
      constructor
      · intro h
        cases h
      · rintro ⟨content, h | ⟨-, hs'⟩, -⟩
        · cases h
        · cases hs.symm.trans hs'
          exact absurd rfl (hnot content)
    · next hs => simp [Holds, hs]
    · next hs => simp [Holds, hs]

theorem withinLimit_iff {size : Option Nat} : withinLimit limit size = true ↔
    limit ≤ 0 ∨ ∃ n, size = some n ∧ (n : Rat) ≤ 1024 * limit := by
  unfold withinLimit
  split
  · next h => simp [h]
  · next h =>
    cases size with
    | none => simp [h]
    | some n => 
      rw [decide_eq_true_iff, ← Rat.not_lt, Rat.lt_div_iff (by decide), Rat.not_lt, Rat.mul_comm]
      simp [h]

theorem excluded_plain (s : Text) : (Rules.plain extensions globs limit).excluded s = .ok false ↔
    ∀ g ∈ globs, Glob.matches g s = false := by
  simp [Rules.plain, Glob.matchesAny]

theorem opens_plain_iff : Opens d (Rules.plain extensions globs limit) base path ↔
    base ++ path ∉ d.unlistable ∧ ∀ g ∈ globs, Glob.matches g (relText path ++ "/") = false := by
  constructor
  · rintro ⟨hpath, hlisted⟩
    exact ⟨by simpa using hlisted, (excluded_plain _).1 hpath⟩
  · rintro ⟨hlisted, hpath⟩
    exact ⟨(excluded_plain _).2 hpath, by simpa using hlisted⟩

theorem takesSize_plain {size : Nat} : (Rules.plain extensions globs limit).takesSize
      (if d.unsized.contains path then none else some size) = .ok true ↔
    limit ≤ 0 ∨ path ∉ d.unsized ∧ (size : Rat) ≤ 1024 * limit := by
  simp only [Rules.plain, Except.ok.injEq, withinLimit_iff, List.contains_iff_mem]
  split
  · next h => simp [h]
  · next h => simp [h]

theorem counts_plain_iff : Counts d (Rules.plain extensions globs limit) base path n ↔
    (∃ content, Holds d (base ++ path) n content ∧
      (limit ≤ 0 ∨ base ++ path ∉ d.unsized ∧ (content.length : Rat) ≤ 1024 * limit)) ∧
    Text.lower (extension (path.getLast?.getD "")) ∈ extensions.map Text.lower ∧
    ∀ g ∈ globs, Glob.matches g (relText path) = false := by
  constructor
  · rintro ⟨⟨size, hsize, htaken⟩, hname, hpath⟩
    obtain ⟨content, hholds, rfl⟩ := fileSize?_some_iff.1 hsize
    exact ⟨⟨content, hholds, takesSize_plain.1 htaken⟩, List.contains_iff_mem.1 hname,
      (excluded_plain _).1 hpath⟩
  · rintro ⟨⟨content, hholds, hlimit⟩, hname, hpath⟩
    exact ⟨⟨content.length, fileSize?_some_iff.2 ⟨content, hholds, rfl⟩, takesSize_plain.2 hlimit⟩,
      List.contains_iff_mem.2 hname, (excluded_plain _).2 hpath⟩

/-- What lies between the top of a tree and something in it is a folder. -/
theorem folder_above {q : List Text} (h : top.find? path = some n) (hq : q <+: path)
    (hne : q ≠ path) : ∃ entries, top.find? q = some (.folder entries) := by
  obtain ⟨t, rfl⟩ := hq
  rw [FileNode.find?_append] at h
  obtain ⟨m, hm, h⟩ := Option.bind_eq_some_iff.1 h
  cases t with
  | nil => exact absurd (List.append_nil q).symm hne
  | cons name t =>
    cases m with
    | file => cases h
    | link => cases h
    | folder entries => exact ⟨entries, hm⟩

/-- Where plain rules let a scan come to, from the top of a tree. -/
theorem stands_plain_iff :
    Stands d (Rules.plain extensions globs limit) base [] top path n ↔
      top.find? path = some n ∧ (∀ entries, n ≠ .folder entries) ∧
        Reaches d base top globs path := by
  constructor
  · rintro ⟨hfound, hleaf, hfolders⟩
    exact ⟨hfound, hleaf, fun q hq hnil hne => ⟨folder_above hfound hq hne,
      opens_plain_iff.1 (hfolders q hq hnil hne)⟩⟩
  · rintro ⟨hfound, hleaf, hfolders⟩
    exact ⟨hfound, hleaf, fun q hq hnil hne => opens_plain_iff.2 (hfolders q hq hnil hne).2⟩

theorem eligible_iff : Eligible d base top extensions globs limit path ↔
    ∃ n, Stands d (Rules.plain extensions globs limit) base [] top path n ∧
      Counts d (Rules.plain extensions globs limit) base path n := by
  simp only [stands_plain_iff, counts_plain_iff]
  constructor
  · rintro ⟨⟨n, content, hfound, hholds, hlimit⟩, hname, hincluded, hfolders⟩
    refine ⟨n, ⟨hfound, ?_, hfolders⟩, ⟨content, hholds, hlimit⟩, hname, hincluded⟩
    rintro entries rfl
    rcases hholds with h | ⟨⟨_, h⟩, -⟩
    · cases h
    · cases h
  · rintro ⟨n, ⟨hfound, -, hfolders⟩, ⟨content, hholds, hlimit⟩, hname, hincluded⟩
    exact ⟨⟨n, content, hfound, hholds, hlimit⟩, hname, hincluded, hfolders⟩

theorem stuck_iff {e : LookupError} : Stuck d base top globs path e ↔
    ∃ n, Stands d (Rules.plain extensions globs limit) base [] top path n ∧
      Blocked d (base ++ path) n e := by
  simp only [stands_plain_iff]
  constructor
  · rintro ⟨⟨target, hfound⟩, hs, he, hfolders⟩
    exact ⟨.link target, ⟨hfound, nofun, hfolders⟩, ⟨target, rfl⟩, hs, he⟩
  · rintro ⟨n, ⟨hfound, -, hfolders⟩, ⟨target, rfl⟩, hs, he⟩
    exact ⟨⟨target, hfound⟩, hs, he, hfolders⟩

end

section

variable {root : SourcePath} {entries : List (Text × FileNode)}

/-- Under plain rules, a scan of a folder that can be listed lists the eligible files in order, or
fails at a link that is stuck. -/
theorem files_plain (hd : d.top.WellNamed) (hs : d.stat root.parts = .ok (.folder entries))
    (hl : root.parts ∉ d.unlistable) (extensions globs : List Text) (limit : Rat) :
    (∃ out, files d root (.ok (.plain extensions globs limit)) = .ok out ∧
      out.Pairwise (· < ·) ∧
      (∀ path, path ∈ out ↔
        Eligible d root.parts (.folder entries) extensions globs limit path) ∧
      ∀ path e, ¬ Stuck d root.parts (.folder entries) globs path e) ∨
    ∃ path e, Stuck d root.parts (.folder entries) globs path e ∧
      files d root (.ok (.plain extensions globs limit)) = .error (.lookup e) := by
  rcases files_listed_or_blocked total_plain (Disk.wellNamed_of_stat hd hs) hs
      (by simpa using hl) with
    ⟨out, hout, horder, hmem, hblocked⟩ | ⟨path, n, e, hn, hb, herror⟩
  · refine Or.inl ⟨out, hout, horder, fun path => ?_, fun path e hstuck => ?_⟩
    · rw [hmem, eligible_iff]
    · obtain ⟨n, hn, hb⟩ := stuck_iff.1 hstuck
      exact hblocked path n e hn hb
  · exact Or.inr ⟨path, e, stuck_iff.2 ⟨n, hn, hb⟩, herror⟩

/-- A scan of a folder that can be listed lists the eligible files, each once and in order. It fails
if and only if a link is stuck, and then at one that is. -/
theorem scan_lists_eligible (hd : d.top.WellNamed)
    (hs : d.stat root.parts = .ok (.folder entries)) (hl : root.parts ∉ d.unlistable)
    (extensions globs : List Text) (limit : Int) :
    (∃ out, files d root (Rules.ofValues (.list (extensions.map .text)) (.list (globs.map .text))
        (.int limit)) = .ok out ∧
      out.Pairwise (· < ·) ∧
      (∀ path, path ∈ out ↔
        Eligible d root.parts (.folder entries) extensions globs limit path) ∧
      ∀ path e, ¬ Stuck d root.parts (.folder entries) globs path e) ∨
    ∃ path e, Stuck d root.parts (.folder entries) globs path e ∧
      files d root (Rules.ofValues (.list (extensions.map .text)) (.list (globs.map .text))
        (.int limit)) = .error (.lookup e) := by
  rw [Rules.ofValues_text]
  exact files_plain hd hs hl extensions globs limit

end

namespace Sample

/-- A disk whose top holds one folder `p`. -/
def disk (entries : List (Text × FileNode)) : Disk :=
  ⟨.folder [("p", .folder entries)], [], [], []⟩

def root : SourcePath := ⟨.single, ["p"]⟩

def linked : List (Text × FileNode) :=
  [("c.py", .link "gone.py"), ("b.py", .link "a"), ("a", .file [])]

def throughFile : List (Text × FileNode) := [("b.py", .file []), ("a", .link "b.py/x")]

theorem wellNamed {entries : List (Text × FileNode)} (h : (FileNode.folder entries).WellNamed) :
    (disk entries).top.WellNamed := by
  refine FileNode.wellNamed_folder (fun e he => ?_) (List.nodup_singleton _) fun e he => ?_
  · rw [List.mem_singleton.1 he]
    exact (by decide : IsEntryName "p")
  · rw [List.mem_singleton.1 he]
    exact h

end Sample

/-- A link to a file is listed, one to nothing is passed over. -/
theorem linked_files_listed : (Sample.disk Sample.linked).top.WellNamed ∧
    ∃ out, files (Sample.disk Sample.linked) Sample.root
        (Rules.ofValues (.list [.text ".py"]) (.list [.text "*.txt"]) (.int 1)) = .ok out ∧
      (["b.py"] : List Text) ∈ out ∧ (["c.py"] : List Text) ∉ out := by
  have hd : (Sample.disk Sample.linked).top.WellNamed :=
    Sample.wellNamed (FileNode.wellNamed_folder (by decide) (by decide)
      (by simp [Sample.linked, FileNode.wellNamed_file, FileNode.wellNamed_link]))
  have hs : (Sample.disk Sample.linked).stat Sample.root.parts = .ok (.folder Sample.linked) := rfl
  have hb : (Sample.disk Sample.linked).stat ["p", "b.py"] = .ok (.file []) := rfl
  have hc : (Sample.disk Sample.linked).stat ["p", "c.py"] = .error .missing := rfl
  refine ⟨hd, ?_⟩
  rcases scan_lists_eligible hd hs nofun [".py"] ["*.txt"] 1 with
    ⟨out, hout, -, hmem, -⟩ | ⟨path, e, hstuck, -⟩
  · refine ⟨out, hout, (hmem _).2 ⟨?_, by decide +kernel, by decide +kernel,
      reaches_entry "b.py"⟩, fun hin => ?_⟩
    · exact ⟨.link "a", [], rfl, Or.inr ⟨⟨_, rfl⟩, hb⟩, Or.inr ⟨nofun, by decide +kernel⟩⟩
    · obtain ⟨⟨n, content, hfound, hholds, -⟩, -⟩ := (hmem _).1 hin
      cases hfound
      rcases hholds with h | ⟨-, h⟩
      · cases h
      · cases hc.symm.trans h
  · obtain ⟨target, hlink⟩ := hstuck.link
    have hpath : path ∈ ([["c.py"], ["b.py"]] : List (List Text)) := FileNode.mem_linkPaths hlink
    have hstat := hstuck.stat
    rcases List.mem_pair.1 hpath with rfl | rfl
    · cases hc.symm.trans hstat
      exact absurd rfl hstuck.notMissing
    · cases hb.symm.trans hstat

/-- A link that leads through a file ends the scan: no link turns in a circle, and yet an eligible
file is not listed. -/
theorem link_through_file_ends_scan : (Sample.disk Sample.throughFile).top.WellNamed ∧
    (Sample.disk Sample.throughFile).stat Sample.root.parts =
      .ok (.folder Sample.throughFile) ∧
    Sample.root.parts ∉ (Sample.disk Sample.throughFile).unlistable ∧
    (∀ path target, (Sample.disk Sample.throughFile).raw? path = some (.link target) →
      (Sample.disk Sample.throughFile).stat path ≠ .error .loop) ∧
    Eligible (Sample.disk Sample.throughFile) Sample.root.parts (.folder Sample.throughFile)
      [".py"] [] 0 ["b.py"] ∧
    files (Sample.disk Sample.throughFile) Sample.root
      (Rules.ofValues (.list [.text ".py"]) (.list []) (.int 0)) =
        .error (.lookup .notFolder) := by
  have hd : (Sample.disk Sample.throughFile).top.WellNamed :=
    Sample.wellNamed (FileNode.wellNamed_folder (by decide) (by decide)
      (by simp [Sample.throughFile, FileNode.wellNamed_file, FileNode.wellNamed_link]))
  have hs : (Sample.disk Sample.throughFile).stat Sample.root.parts =
      .ok (.folder Sample.throughFile) := rfl
  have ha : (Sample.disk Sample.throughFile).stat ["p", "a"] = .error .notFolder := rfl
  refine ⟨hd, hs, nofun, fun path target hlink hloop => ?_, ?_, ?_⟩
  · have hpath : path ∈ ([["p", "a"]] : List (List Text)) := FileNode.mem_linkPaths hlink
    rw [List.mem_singleton.1 hpath] at hloop
    cases ha.symm.trans hloop
  · exact ⟨⟨_, [], rfl, Or.inl rfl, Or.inl (by decide +kernel)⟩, by decide +kernel, nofun,
      reaches_entry "b.py"⟩
  · have hstuck : ∀ path e, Stuck (Sample.disk Sample.throughFile) Sample.root.parts
        (.folder Sample.throughFile) [] path e ↔ path = ["a"] ∧ e = .notFolder := by
      intro path e
      constructor
      · intro h
        obtain ⟨target, hlink⟩ := h.link
        have hpath : path ∈ ([["a"]] : List (List Text)) := FileNode.mem_linkPaths hlink
        have hstat := h.stat
        rw [List.mem_singleton.1 hpath] at hstat
        cases ha.symm.trans hstat
        exact ⟨List.mem_singleton.1 hpath, rfl⟩
      · rintro ⟨rfl, rfl⟩
        exact ⟨⟨_, rfl⟩, ha, nofun, reaches_entry "a"⟩
    rw [show Rules.ofValues (.list [.text ".py"]) (.list []) (.int 0) =
      .ok (.plain [".py"] [] (0 : Int)) from Rules.ofValues_text [".py"] [] 0]
    rcases files_plain hd hs nofun [".py"] [] (0 : Int) with
      ⟨out, -, -, -, hnot⟩ | ⟨path, e, h, herror⟩
    · exact absurd ((hstuck ["a"] .notFolder).2 ⟨rfl, rfl⟩) (hnot _ _)
    · rw [herror, ((hstuck path e).1 h).2]

end CodeAtlas.Scan
