import CodeAtlas.File.Disk
import Mathlib.Data.List.Nodup

/-!
# Trees and paths without links

A path on which no link lies (`Disk.Direct`) leads where it says: it is its own path without links
(`resolve_direct_eq`), and what it leads to is the node at it (`stat_direct`). In a folder without
links (`Disk.LinkFree`) every path that leads somewhere is of this kind.

Replacing the content of a file leaves every other path as it was, up to what folders hold
(`find?_put_file`):

    n.find? path = some (.file old) → other ≠ path →
      Alike ((n.put path (.file new)).find? other) (n.find? other)
-/

namespace CodeAtlas

/-! ## Paths that can be on a disk -/

theorem CodePoint.diskError?_eq_none_iff {offset : Nat} {cs : List CodePoint} :
    diskError? offset cs = none ↔ ∀ n, .surrogate n ∈ cs → isByte n = true := by
  induction cs generalizing offset with
  | nil => simp [diskError?]
  | cons c cs ih =>
    cases c with
    | char c => simp [diskError?, ih]
    | surrogate m =>
      unfold diskError?
      split
      · next hm => simp [ih, hm]
      · next hm => exact ⟨nofun, fun h => absurd (h m List.mem_cons_self) hm⟩

theorem Text.diskError?_eq_none_iff {t : Text} :
    t.diskError? = none ↔ ∀ n, .surrogate n ∈ t.toList → CodePoint.isByte n = true :=
  CodePoint.diskError?_eq_none_iff

/-- Apart from the separator, texts put together hold what each of them holds. -/
theorem Text.mem_intercalate_iff {separator : Text} {texts : List Text} {c : CodePoint}
    (hc : c ∉ separator.toList) :
    c ∈ (Text.intercalate separator texts).toList ↔ ∃ t ∈ texts, c ∈ t.toList := by
  rw [toList_intercalate]
  induction texts with
  | nil => simp
  | cons t texts ih =>
    cases texts with
    | nil => simp
    | cons u texts =>
      rw [List.map_cons, List.map_cons, List.intercalate_cons_cons, List.mem_append,
        List.mem_append, ← List.map_cons, ih]
      simp [hc]

namespace Disk

theorem surrogate_mem_pathText_iff {path : List Text} {n : Fin 0x800} :
    .surrogate n ∈ (pathText path).toList ↔ ∃ p ∈ path, .surrogate n ∈ p.toList := by
  have hslash : CodePoint.surrogate n ∉ ("/" : Text).toList := by simp
  change .surrogate n ∈ ("/" ++ Text.intercalate "/" path : Text).toList ↔ _
  rw [Text.toList_append, List.mem_append, Text.mem_intercalate_iff hslash]
  simp

theorem pathError?_eq_none_iff {path : List Text} :
    pathError? path = none ↔ ∀ p ∈ path, p.diskError? = none ∧ hasNull p = false := by
  have hbytes : (pathText path).diskError? = none ↔ ∀ p ∈ path, p.diskError? = none := by
    simp only [Text.diskError?_eq_none_iff, surrogate_mem_pathText_iff]
    exact ⟨fun h p hp n hn => h n ⟨p, hp, hn⟩, fun h n ⟨p, hp, hn⟩ => h p hp n hn⟩
  unfold pathError?
  split
  · next e he => exact ⟨nofun, fun h => by cases he.symm.trans (hbytes.2 fun p hp => (h p hp).1)⟩
  · next he =>
    have hnull : (if path.any hasNull then some PathError.nullCharacter else none) = none ↔
        ∀ p ∈ path, hasNull p = false := by simp
    rw [hnull]
    exact ⟨fun h p hp => ⟨hbytes.1 he p hp, h p hp⟩, fun h p hp => (h p hp).2⟩

theorem pathError?_of_subset {path part : List Text} (h : pathError? path = none)
    (hpart : part ⊆ path) : pathError? part = none :=
  pathError?_eq_none_iff.2 fun p hp => pathError?_eq_none_iff.1 h p (hpart hp)

end Disk

/-- What can name an entry of a folder. -/
structure IsEntryName (name : Text) : Prop where
  nonempty : name ≠ ""
  notHere : name ≠ "."
  notUp : name ≠ ".."
  noSlash : .char '/' ∉ name.toList

instance (name : Text) : Decidable (IsEntryName name) :=
  decidable_of_iff (name ≠ "" ∧ name ≠ "." ∧ name ≠ ".." ∧ .char '/' ∉ name.toList)
    ⟨fun h => ⟨h.1, h.2.1, h.2.2.1, h.2.2.2⟩,
      fun h => ⟨h.nonempty, h.notHere, h.notUp, h.noSlash⟩⟩

namespace FileNode

/-- The folders at a node and below have proper names, each once. -/
structure WellNamed (n : FileNode) : Prop where
  names : ∀ path entries, n.find? path = some (.folder entries) → ∀ e ∈ entries, IsEntryName e.1
  distinct : ∀ path entries, n.find? path = some (.folder entries) → (entries.map (·.1)).Nodup

/-- What holds of files and links, and of folders if it holds of their entries, holds of all. -/
theorem inductionOn {motive : FileNode → Prop} (n : FileNode)
    (file : ∀ content, motive (.file content)) (link : ∀ target, motive (.link target))
    (folder : ∀ entries, (∀ e ∈ entries, motive e.2) → motive (.folder entries)) : motive n :=
  match n with
  | .file content => file content
  | .link target => link target
  | .folder entries => folder entries fun e _he => inductionOn e.2 file link folder
termination_by sizeOf n
decreasing_by
  have hlt := List.sizeOf_lt_of_mem _he
  have he1 : sizeOf e.2 < sizeOf e := by
    obtain ⟨name, m⟩ := e
    simp only [Prod.mk.sizeOf_spec]
    omega
  simp only [FileNode.folder.sizeOf_spec]
  omega

@[simp] theorem find?_nil (n : FileNode) : n.find? [] = some n := by
  cases n <;> rfl

@[simp] theorem find?_folder (entries : List (Text × FileNode)) (p : Text) (ps : List Text) :
    (folder entries).find? (p :: ps) = (entries.lookup p).bind (·.find? ps) := by
  rw [find?]
  cases entries.lookup p <;> rfl

@[simp] theorem find?_file (content : List UInt8) (p : Text) (ps : List Text) :
    (file content).find? (p :: ps) = none := rfl

@[simp] theorem find?_link (target : Text) (p : Text) (ps : List Text) :
    (link target).find? (p :: ps) = none := rfl

theorem find?_append (n : FileNode) (p q : List Text) :
    n.find? (p ++ q) = (n.find? p).bind (·.find? q) := by
  induction p generalizing n with
  | nil => simp
  | cons name p ih =>
    cases n with
    | file => simp
    | link => simp
    | folder entries =>
      simp only [List.cons_append, find?_folder]
      cases entries.lookup name with
      | none => rfl
      | some m => exact ih m

theorem mem_of_lookup {entries : List (Text × FileNode)} {name : Text} {n : FileNode}
    (h : entries.lookup name = some n) : (name, n) ∈ entries := by
  induction entries with
  | nil => cases h
  | cons e rest ih =>
    obtain ⟨k, m⟩ := e
    by_cases hk : name = k
    · subst hk
      have : m = n := by simpa using h
      rw [this]
      exact List.mem_cons_self
    · rw [List.lookup_cons, beq_eq_false_iff_ne.2 hk] at h
      exact List.mem_cons_of_mem _ (ih h)

theorem wellNamed_file (content : List UInt8) : (file content).WellNamed := by
  constructor <;>
  · intro path entries h
    cases path with
    | nil => cases h
    | cons p ps => cases h

theorem wellNamed_link (target : Text) : (link target).WellNamed := by
  constructor <;>
  · intro path entries h
    cases path with
    | nil => cases h
    | cons p ps => cases h

theorem wellNamed_folder {entries : List (Text × FileNode)}
    (hnames : ∀ e ∈ entries, IsEntryName e.1) (hdistinct : (entries.map (·.1)).Nodup)
    (hbelow : ∀ e ∈ entries, e.2.WellNamed) : (folder entries).WellNamed := by
  constructor
  · intro path es h
    cases path with
    | nil =>
      cases h
      exact hnames
    | cons p ps =>
      rw [find?_folder] at h
      obtain ⟨n, hn, h⟩ := Option.bind_eq_some_iff.1 h
      exact (hbelow _ (mem_of_lookup hn)).names ps es h
  · intro path es h
    cases path with
    | nil =>
      cases h
      exact hdistinct
    | cons p ps =>
      rw [find?_folder] at h
      obtain ⟨n, hn, h⟩ := Option.bind_eq_some_iff.1 h
      exact (hbelow _ (mem_of_lookup hn)).distinct ps es h

/-- A node below a well-named one is well-named. -/
theorem WellNamed.below {n m : FileNode} (h : n.WellNamed) {path : List Text}
    (hm : n.find? path = some m) : m.WellNamed := by
  have hfind : ∀ q, n.find? (path ++ q) = m.find? q := by
    intro q
    rw [find?_append, hm, Option.bind_some]
  constructor
  · intro q entries hq
    exact h.names (path ++ q) entries ((hfind q).trans hq)
  · intro q entries hq
    exact h.distinct (path ++ q) entries ((hfind q).trans hq)

/-- Where names are distinct, an entry is found under its name. -/
theorem lookup_eq_some_iff {entries : List (Text × FileNode)}
    (hd : (entries.map (·.1)).Nodup) {name : Text} {n : FileNode} :
    entries.lookup name = some n ↔ (name, n) ∈ entries := by
  refine ⟨mem_of_lookup, fun h => ?_⟩
  induction entries with
  | nil => cases h
  | cons e rest ih =>
    obtain ⟨k, m⟩ := e
    rw [List.map_cons, List.nodup_cons] at hd
    rcases List.mem_cons.1 h with he | hrest
    · cases he
      simp
    · have hk : name ≠ k := by
        intro hk
        exact hd.1 (List.mem_map.2 ⟨_, hrest, hk⟩)
      rw [List.lookup_cons, beq_eq_false_iff_ne.2 hk]
      exact ih hd.2 hrest

theorem WellNamed.entry {entries : List (Text × FileNode)} (h : (folder entries).WellNamed)
    {e : Text × FileNode} (he : e ∈ entries) : e.2.WellNamed := by
  have hfound : (folder entries).find? [e.1] = some e.2 := by
    simp [(lookup_eq_some_iff (h.distinct [] entries rfl)).2 he]
  exact h.below hfound

/-- Every name on a path that leads somewhere is the name of an entry. -/
theorem WellNamed.isEntryName {n m : FileNode} (h : n.WellNamed) {path : List Text}
    (hm : n.find? path = some m) : ∀ name ∈ path, IsEntryName name := by
  induction path generalizing n with
  | nil => exact nofun
  | cons p ps ih =>
    cases n with
    | file => cases hm
    | link => cases hm
    | folder entries =>
      rw [find?_folder] at hm
      obtain ⟨k, hk, hm⟩ := Option.bind_eq_some_iff.1 hm
      intro name hname
      rcases List.mem_cons.1 hname with rfl | hname
      · exact h.names [] entries rfl _ (mem_of_lookup hk)
      · have hbelow : k.WellNamed := h.below (show (folder entries).find? [p] = some k by simp [hk])
        exact ih hbelow hm name hname

/-! ## Replacing a file -/

/-- Equal, or folders with the same names. -/
def Alike (a b : Option FileNode) : Prop :=
  a = b ∨ ∃ es es', a = some (folder es) ∧ b = some (folder es') ∧ es.map (·.1) = es'.map (·.1)

theorem lookup_setEntry (entries : List (Text × FileNode)) (name other : Text) (n : FileNode) :
    (setEntry entries name n).lookup other =
      if other = name then some n else entries.lookup other := by
  induction entries with
  | nil =>
    by_cases h : other = name
    · simp [setEntry, h]
    · simp [setEntry, h, List.lookup_cons, beq_eq_false_iff_ne.2 h]
  | cons e rest ih =>
    obtain ⟨k, m⟩ := e
    unfold setEntry
    by_cases hk : k = name
    · subst hk
      rw [if_pos rfl]
      by_cases h : other = k
      · simp [h]
      · simp [h, List.lookup_cons, beq_eq_false_iff_ne.2 h]
    · rw [if_neg hk, List.lookup_cons, ih, List.lookup_cons]
      by_cases h : other = k
      · subst h
        simp [hk]
      · simp [beq_eq_false_iff_ne.2 h]

theorem names_setEntry {entries : List (Text × FileNode)} {name : Text} {m : FileNode}
    (h : entries.lookup name = some m) (n : FileNode) :
    (setEntry entries name n).map (·.1) = entries.map (·.1) := by
  induction entries with
  | nil => cases h
  | cons e rest ih =>
    obtain ⟨k, m'⟩ := e
    unfold setEntry
    by_cases hk : k = name
    · simp [hk]
    · rw [List.lookup_cons, beq_eq_false_iff_ne.2 (Ne.symm hk)] at h
      simp [hk, ih h]

/-- New content of a file is found at its path, and every other path is as it was. -/
theorem find?_put_file {n : FileNode} {path : List Text} {old : List UInt8}
    (h : n.find? path = some (.file old)) (new : List UInt8) (other : List Text) :
    (n.put path (.file new)).find? path = some (.file new) ∧
      (other ≠ path → Alike ((n.put path (.file new)).find? other) (n.find? other)) := by
  induction path generalizing n other with
  | nil =>
    rw [find?_nil, Option.some.injEq] at h
    subst h
    refine ⟨by simp [put], fun hne => Or.inl ?_⟩
    cases other with
    | nil => exact absurd rfl hne
    | cons q qs => simp [put]
  | cons p ps ih =>
    cases n with
    | file => cases h
    | link => cases h
    | folder entries =>
      rw [find?_folder] at h
      obtain ⟨m, hm, hfile⟩ := Option.bind_eq_some_iff.1 h
      have hput : (folder entries).put (p :: ps) (.file new) =
          folder (setEntry entries p (m.put ps (.file new))) := by
        simp [put, hm]
      rw [hput]
      refine ⟨by simpa [lookup_setEntry] using (ih hfile ps).1, fun hne => ?_⟩
      cases other with
      | nil =>
        right
        exact ⟨_, _, find?_nil _, find?_nil _, names_setEntry hm _⟩
      | cons q qs =>
        rw [find?_folder, find?_folder, lookup_setEntry]
        by_cases hq : q = p
        · subst hq
          rw [if_pos rfl, hm]
          exact (ih hfile qs).2 fun hqs => hne (by rw [hqs])
        · rw [if_neg hq]
          exact Or.inl rfl

/-- With new content of a file, the names are as they were. -/
theorem WellNamed.put_file {n : FileNode} (h : n.WellNamed) {path : List Text} {old : List UInt8}
    (hfile : n.find? path = some (.file old)) (new : List UInt8) :
    (n.put path (.file new)).WellNamed := by
  have hsame : ∀ q entries, (n.put path (.file new)).find? q = some (.folder entries) →
      ∃ es, n.find? q = some (.folder es) ∧ entries.map (·.1) = es.map (·.1) := by
    intro q entries hq
    obtain ⟨hnew, hothers⟩ := find?_put_file hfile new q
    have hne : q ≠ path := by
      rintro rfl
      rw [hnew] at hq
      cases hq
    rcases hothers hne with heq | ⟨es, es', hes, hes', hnames⟩
    · exact ⟨entries, heq ▸ hq, rfl⟩
    · rw [hq] at hes
      cases hes
      exact ⟨es', hes', hnames⟩
  constructor
  · intro q entries hq e he
    obtain ⟨es, hes, hnames⟩ := hsame q entries hq
    have he' : e.1 ∈ es.map (·.1) := hnames ▸ List.mem_map_of_mem he
    obtain ⟨e', he', hee⟩ := List.mem_map.1 he'
    exact hee ▸ h.names q es hes e' he'
  · intro q entries hq
    obtain ⟨es, hes, hnames⟩ := hsame q entries hq
    exact hnames ▸ h.distinct q es hes

end FileNode

/-! ## Direct paths -/

namespace Disk

/-- A path of proper names on which no link lies. -/
structure Direct (d : Disk) (path : List Text) : Prop where
  names : ∀ name ∈ path, IsEntryName name
  noLink : ∀ q, q <+: path → ∀ target, d.raw? q ≠ some (.link target)

theorem raw?_entry {d : Disk} {here : List Text} {entries : List (Text × FileNode)} {p : Text}
    {n : FileNode} (hf : d.raw? here = some (.folder entries)) (hn : entries.lookup p = some n) :
    d.raw? (here ++ [p]) = some n := by
  unfold raw? at hf ⊢
  rw [FileNode.find?_append, hf]
  simp [hn]

/-- An entry of a folder with distinct names is found below it. -/
theorem raw?_of_mem {d : Disk} (hd : d.top.WellNamed) {here : List Text}
    {entries : List (Text × FileNode)} (hf : d.raw? here = some (.folder entries))
    {e : Text × FileNode} (he : e ∈ entries) : d.raw? (here ++ [e.1]) = some e.2 :=
  raw?_entry hf ((FileNode.lookup_eq_some_iff (hd.distinct _ _ hf)).2 he)

/-- What is there and is no link lies at a direct path. -/
theorem direct_of_raw? {d : Disk} (hd : d.top.WellNamed) {path : List Text} {n : FileNode}
    (hn : d.raw? path = some n) (hnot : ∀ target, n ≠ .link target) : d.Direct path := by
  refine ⟨hd.isEntryName hn, ?_⟩
  rintro q ⟨t, rfl⟩ target hq
  unfold raw? at hn hq
  rw [FileNode.find?_append, hq] at hn
  cases t with
  | nil => exact hnot target (Option.some.inj hn).symm
  | cons p ps =>
    -- nothing lies below a link
    cases hn

theorem link?_direct {d : Disk} {path q : List Text} (h : d.Direct path) (hq : q <+: path) :
    d.link? q = none := by
  unfold link?
  split
  · rfl
  · split
    · next target hl => exact absurd hl (h.noLink q hq target)
    · rfl

/-- Following a direct path ends at the path itself. -/
theorem followSteps_direct {d : Disk}
    {enter : Followed → List Text → Text → Except ResolveError (Trail × Followed)}
    {followed : Followed} {here path : List Text} (h : d.Direct (here ++ path))
    (hok : pathError? (here ++ path) = none) :
    d.followSteps enter followed here path = .ok (.reached (here ++ path), followed) := by
  induction path generalizing here with
  | nil => simp [followSteps]
  | cons p ps ih =>
    have hname := h.names p (by simp)
    have hsplit : here ++ p :: ps = (here ++ [p]) ++ ps := by simp
    have hstart : here ++ [p] <+: here ++ p :: ps := hsplit ▸ List.prefix_append _ _
    unfold followSteps
    rw [if_neg (by simp [hname.nonempty, hname.notHere]), if_neg hname.notUp,
      pathError?_of_subset hok hstart.subset, link?_direct h hstart, hsplit]
    exact ih (hsplit ▸ h) (hsplit ▸ hok)

/-- Following a direct path ends nowhere else. -/
theorem eq_of_followSteps_direct {d : Disk}
    {enter : Followed → List Text → Text → Except ResolveError (Trail × Followed)}
    {followed : Followed} {here path : List Text} (h : d.Direct (here ++ path))
    {r : Trail × Followed} (hr : d.followSteps enter followed here path = .ok r) :
    r = (.reached (here ++ path), followed) := by
  induction path generalizing here with
  | nil =>
    cases hr
    rw [List.append_nil]
  | cons p ps ih =>
    have hname := h.names p (by simp)
    have hsplit : here ++ p :: ps = (here ++ [p]) ++ ps := by simp
    have hstart : here ++ [p] <+: here ++ p :: ps := hsplit ▸ List.prefix_append _ _
    unfold followSteps at hr
    rw [if_neg (by simp [hname.nonempty, hname.notHere]), if_neg hname.notUp,
      link?_direct h hstart] at hr
    split at hr
    · cases hr
    · rw [hsplit]
      exact ih (hsplit ▸ h) hr

/-- A walk along a direct path ends at the path itself, unless it fails, and it meets no circle. -/
theorem walkSteps_direct {d : Disk}
    {enter : List Text → List Text → Except LookupError (List Text)}
    {here path : List Text} (h : d.Direct (here ++ path)) :
    d.walkSteps enter here path = .ok (here ++ path) ∨
      ∃ e, e ≠ .loop ∧ d.walkSteps enter here path = .error e := by
  induction path generalizing here with
  | nil => exact Or.inl (by simp [walkSteps])
  | cons p ps ih =>
    have hname := h.names p (by simp)
    have hsplit : here ++ p :: ps = (here ++ [p]) ++ ps := by simp
    unfold walkSteps
    split
    · next entries hfolder =>
      rw [if_neg hname.notHere, if_neg hname.notUp]
      split
      · exact Or.inr ⟨.tooLong, nofun, rfl⟩
      · split
        · exact Or.inr ⟨.missing, nofun, rfl⟩
        · next target hl =>
          have hstart : here ++ [p] <+: here ++ p :: ps := by
            rw [hsplit]
            exact List.prefix_append _ _
          exact absurd (raw?_entry hfolder hl) (h.noLink _ hstart target)
        · rw [hsplit]
          exact ih (by rw [← hsplit]; exact h)
    · exact Or.inr ⟨.notFolder, nofun, rfl⟩
    · exact Or.inr ⟨.missing, nofun, rfl⟩

theorem walk_direct {d : Disk} {path : List Text} (h : d.Direct path) (links : Nat) :
    d.walk links [] path = .ok path ∨ ∃ e, e ≠ .loop ∧ d.walk links [] path = .error e := by
  cases links with
  | zero => exact walkSteps_direct h
  | succ links => exact walkSteps_direct h

theorem stat_ok {d : Disk} {path : List Text} {n : FileNode} (h : d.stat path = .ok n) :
    ∃ dest, d.walk 40 [] path = .ok dest ∧ d.raw? dest = some n := by
  unfold stat at h
  split at h
  · cases h
  · cases hw : d.walk 40 [] path with
    | error e =>
      rw [hw] at h
      cases h
    | ok dest =>
      rw [hw] at h
      simp only [bind, Except.bind] at h
      split at h
      · next m hm =>
        cases h
        exact ⟨dest, rfl, hm⟩
      · cases h

theorem wellNamed_of_stat {d : Disk} (hd : d.top.WellNamed) {path : List Text} {n : FileNode}
    (h : d.stat path = .ok n) : n.WellNamed := by
  obtain ⟨dest, -, hn⟩ := stat_ok h
  exact hd.below hn

/-- What a direct path leads to is the node at it. -/
theorem stat_direct {d : Disk} {path : List Text} (h : d.Direct path) {n : FileNode}
    (hs : d.stat path = .ok n) : d.raw? path = some n := by
  obtain ⟨dest, hw, hn⟩ := stat_ok hs
  rcases walk_direct h 40 with hok | ⟨e, -, herror⟩
  · cases hw.symm.trans hok
    exact hn
  · cases hw.symm.trans herror

theorem stat_direct_ne_loop {d : Disk} {path : List Text} (h : d.Direct path) :
    d.stat path ≠ .error .loop := by
  unfold stat
  split
  · exact nofun
  · rcases walk_direct h 40 with hok | ⟨e, hne, herror⟩
    · rw [hok]
      simp only [bind, Except.bind]
      split
      · exact nofun
      · exact nofun
    · rw [herror]
      rintro ⟨⟩
      exact hne rfl

/-- A path from which links lead to a direct one is told. -/
theorem resolve_of_reached {d : Disk} {path : SourcePath} {dest : List Text} {followed : Followed}
    (h : d.followSteps (d.followLink d.top.linkCount) [] [] path.parts =
      .ok (.reached dest, followed))
    (hdest : d.Direct dest) (hok : pathError? dest = none) :
    d.resolve path = .ok ⟨.single, dest⟩ := by
  unfold resolve
  rw [h]
  simp only [bind, Except.bind, hok, pure, Except.pure]
  split
  · next hloop => exact absurd hloop (stat_direct_ne_loop hdest)
  · rfl

/-- A direct path is its own path without links. -/
theorem resolve_direct_eq {d : Disk} {path : List Text} (root : PathRoot) (h : d.Direct path)
    (hok : pathError? path = none) : d.resolve ⟨root, path⟩ = .ok ⟨.single, path⟩ :=
  resolve_of_reached (followSteps_direct h hok) h hok

theorem resolve_direct {d : Disk} {path : List Text} {root : PathRoot} (h : d.Direct path)
    {p : SourcePath} (hp : d.resolve ⟨root, path⟩ = .ok p) :
    p = ⟨.single, path⟩ ∧ pathError? path = none := by
  unfold resolve at hp
  cases hfollow : d.followSteps (d.followLink d.top.linkCount) [] [] path with
  | error e =>
    rw [hfollow] at hp
    cases hp
  | ok r =>
    obtain rfl := eq_of_followSteps_direct h hfollow
    rw [hfollow] at hp
    simp only [bind, Except.bind, List.nil_append] at hp
    split at hp
    · cases hp
    · next hok =>
      split at hp
      · cases hp
      · cases hp
        exact ⟨rfl, hok⟩

/-- Writing to a direct path writes there. -/
theorem landing_direct {d : Disk} {path : List Text} (h : d.Direct path) :
    d.landing path = path := by
  unfold landing
  split
  · next p hp => rw [(resolve_direct h hp).1]
  · rfl

/-! ## Folders without links -/

/-- A folder at and below which there is no link, on a disk with proper names. -/
structure LinkFree (d : Disk) (base : List Text) : Prop where
  named : d.top.WellNamed
  folder : ∃ entries, d.raw? base = some (.folder entries)
  noLinks : ∀ path target, d.raw? (base ++ path) ≠ some (.link target)

/-- A path that leads somewhere below such a folder is direct. -/
theorem LinkFree.direct {d : Disk} {base path : List Text} {n : FileNode} (h : d.LinkFree base)
    (hn : d.raw? (base ++ path) = some n) : d.Direct (base ++ path) :=
  direct_of_raw? h.named hn fun target ht => h.noLinks path target (ht ▸ hn)

theorem LinkFree.direct_base {d : Disk} {base : List Text} (h : d.LinkFree base) :
    d.Direct base := by
  obtain ⟨entries, hfolder⟩ := h.folder
  have hdirect : d.Direct (base ++ []) := h.direct (by rwa [List.append_nil])
  rwa [List.append_nil] at hdirect

theorem LinkFree.raw?_entry {d : Disk} {base path : List Text} (h : d.LinkFree base)
    {entries : List (Text × FileNode)} (hfolder : d.raw? (base ++ path) = some (.folder entries))
    {e : Text × FileNode} (he : e ∈ entries) : d.raw? (base ++ (path ++ [e.1])) = some e.2 := by
  rw [← List.append_assoc]
  exact raw?_of_mem h.named hfolder he

/-- New content of a file below such a folder is found there, and every other path is as it was. -/
theorem LinkFree.raw?_writeFile {d : Disk} {base path : List Text} {old : List UInt8}
    (h : d.LinkFree base) (hfile : d.raw? (base ++ path) = some (.file old)) (new : List UInt8)
    (other : List Text) :
    (d.writeFile (base ++ path) new).raw? (base ++ path) = some (.file new) ∧
      (other ≠ base ++ path →
        FileNode.Alike ((d.writeFile (base ++ path) new).raw? other) (d.raw? other)) := by
  unfold writeFile
  rw [landing_direct (h.direct hfile)]
  exact FileNode.find?_put_file hfile new other

theorem LinkFree.writeFile {d : Disk} {base path : List Text} {old : List UInt8}
    (h : d.LinkFree base) (hfile : d.raw? (base ++ path) = some (.file old)) (new : List UInt8) :
    (d.writeFile (base ++ path) new).LinkFree base := by
  constructor
  · unfold Disk.writeFile
    rw [landing_direct (h.direct hfile)]
    exact h.named.put_file hfile new
  · obtain ⟨entries, hfolder⟩ := h.folder
    have hne : base ≠ base ++ path := by
      intro heq
      rw [heq, hfile] at hfolder
      cases hfolder
    rcases (h.raw?_writeFile hfile new base).2 hne with heq | ⟨es, -, hes, -⟩
    · exact ⟨entries, heq.trans hfolder⟩
    · exact ⟨es, hes⟩
  · intro q target hq
    obtain ⟨hnew, hothers⟩ := h.raw?_writeFile hfile new (base ++ q)
    by_cases hqp : base ++ q = base ++ path
    · rw [hqp, hnew] at hq
      cases hq
    · rcases hothers hqp with heq | ⟨es, -, hes, -⟩
      · exact h.noLinks q target (heq ▸ hq)
      · rw [hq] at hes
        cases hes

end Disk

end CodeAtlas
