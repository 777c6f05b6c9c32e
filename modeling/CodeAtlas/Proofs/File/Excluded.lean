import CodeAtlas.Proofs.Config.Merge
import CodeAtlas.Proofs.File.Eligible

/-!
# Excluded folders

The pattern `d/**` stands for two globs, one for the top and one for any depth. A star takes slashes
too, so that together they ask for `d` between two slashes, one of which may be put before the path:

    (∃ g ∈ Pattern.expand (d ++ "/**"), Glob.matches g path) ↔
      between d <:+: .char '/' :: path.toList                                  (matches_expand_iff)

Names have no slash, so this is to say that `d` is one of the names before the last slash
(`between_infix_iff`). A folder is asked about with a slash at its end, a file without one: what a
scan lists are the files none of whose folders is excluded (`sources_outside_folders`).
-/

namespace CodeAtlas

/-! ## Names and slashes -/

/-- A name that stands for itself in a pattern and cannot be taken for a comment or trimmed at its
start. -/
structure IsFolderName (name : Text) : Prop where
  nonempty : name ≠ ""
  plain : ∀ c ∈ name.toList, c ≠ '/' ∧ c ≠ '*' ∧ c ≠ '?' ∧ c ≠ '['
  start : ∀ c, name.toList.head? = some c → c ≠ '#' ∧ Text.isBlank c = false

theorem IsFolderName.noSlash {name : Text} (h : IsFolderName name) : .char '/' ∉ name.toList :=
  fun hin => (h.plain _ hin).1 rfl

theorem IsFolderName.toList_ne_nil {name : Text} (h : IsFolderName name) : name.toList ≠ [] :=
  fun hnil => h.nonempty (Text.toList_eq_nil_iff.1 hnil)

/-- Names, each after a slash. -/
def slashed (names : List Text) : List CodePoint :=
  names.flatMap fun name => .char '/' :: name.toList

/-- A name between slashes. -/
def between (name : Text) : List CodePoint := .char '/' :: (name.toList ++ [.char '/'])

theorem slash_relText {rel : List Text} (h : rel ≠ []) :
    .char '/' :: (Scan.relText rel).toList = slashed rel := by
  induction rel with
  | nil => exact absurd rfl h
  | cons name rel ih =>
    cases rel with
    | nil => simp [Scan.relText, Text.toList_intercalate, slashed]
    | cons next rel =>
      have hrest := ih (List.cons_ne_nil _ _)
      rw [Scan.relText, Text.toList_intercalate] at hrest ⊢
      rw [List.map_cons, List.intercalate_cons_of_ne_nil (by simp)]
      rw [slashed, List.flatMap_cons, ← slashed, ← hrest]
      simp

/-- What starts with a slash does not start within characters that are none. -/
theorem infix_append_iff {cs part rest : List CodePoint} (h : .char '/' ∉ cs) :
    .char '/' :: part <:+: cs ++ rest ↔ .char '/' :: part <:+: rest := by
  induction cs with
  | nil => rfl
  | cons c cs ih =>
    rw [List.mem_cons, not_or] at h
    rw [List.cons_append, List.infix_cons_iff, ih h.2, List.cons_prefix_cons]
    simp [h.1]

/-- What lies before the first slash. -/
theorem eq_of_append_slash {as bs s t : List CodePoint} (ha : .char '/' ∉ as) (hb : .char '/' ∉ bs)
    (h : as ++ .char '/' :: s = bs ++ .char '/' :: t) : as = bs := by
  rcases List.append_eq_append_iff.1 h with ⟨cs, rfl, hcs⟩ | ⟨cs, rfl, hcs⟩
  · cases cs with
    | nil => simp
    | cons c cs =>
      rw [← (List.cons.inj hcs).1] at hb
      exact absurd (by simp) hb
  · cases cs with
    | nil => simp
    | cons c cs =>
      rw [← (List.cons.inj hcs).1] at ha
      exact absurd (by simp) ha

/-- Before the last slash, a name stands between slashes only if it is one of the names. -/
theorem between_infix_iff {name : Text} {names : List Text} {tail : List CodePoint}
    (hname : .char '/' ∉ name.toList) (hnames : ∀ n ∈ names, .char '/' ∉ n.toList)
    (htail : .char '/' ∉ tail) :
    between name <:+: slashed names ++ .char '/' :: tail ↔ name ∈ names := by
  induction names with
  | nil =>
    refine ⟨fun h => ?_, nofun⟩
    rcases List.infix_cons_iff.1 h with h | h
    · have hrest : name.toList ++ [.char '/'] <+: tail := (List.cons_prefix_cons.1 h).2
      exact absurd (hrest.subset (List.mem_append_right _ (List.mem_singleton.2 rfl))) htail
    · exact absurd (h.subset List.mem_cons_self) htail
  | cons first names ih =>
    have hfirst := hnames first List.mem_cons_self
    obtain ⟨rest, hrest⟩ : ∃ rest, slashed names ++ .char '/' :: tail = .char '/' :: rest := by
      cases names with
      | nil => exact ⟨tail, rfl⟩
      | cons next names => exact ⟨_, rfl⟩
    have hstart :
        name.toList ++ [.char '/'] <+: first.toList ++ .char '/' :: rest ↔ name = first := by
      constructor
      · rintro ⟨t, ht⟩
        rw [List.append_assoc] at ht
        exact Text.toList_inj.1 (eq_of_append_slash hname hfirst ht)
      · rintro rfl
        exact ⟨rest, by simp⟩
    have hbelow := ih fun n hn => hnames n (List.mem_cons_of_mem _ hn)
    rw [slashed, List.flatMap_cons, ← slashed, List.cons_append, List.cons_append,
      List.append_assoc, between, List.infix_cons_iff, List.cons_prefix_cons,
      infix_append_iff hfirst, hrest, hstart, ← hrest, ← between, hbelow, List.mem_cons]
    simp

/-! ## Globs of a name -/

namespace Glob

/-- Characters that are no wildcards stand for themselves. -/
theorem tokens_plain {cs rest : List CodePoint} (h : ∀ c ∈ cs, c ≠ '*' ∧ c ≠ '?' ∧ c ≠ '[') :
    tokens (cs ++ rest) = cs.map .char ++ tokens rest := by
  induction cs with
  | nil => rfl
  | cons c cs ih =>
    obtain ⟨hstar, hone, hset⟩ := h c List.mem_cons_self
    rw [List.cons_append, tokens, if_neg (by simpa using hstar), if_neg (by simpa using hone),
      if_neg (by simpa using hset), ih fun c hc => h c (List.mem_cons_of_mem _ hc)]
    rfl

theorem tokens_star (cs : List CodePoint) : tokens (.char '*' :: cs) = .star :: tokens cs := by
  rw [tokens, if_pos (by decide)]

theorem matchTokens_chars {cs : List CodePoint} {ts : List Token} {s : List CodePoint} :
    matchTokens (cs.map .char ++ ts) s = true ↔ ∃ t, s = cs ++ t ∧ matchTokens ts t = true := by
  induction cs generalizing s with
  | nil => simp
  | cons c cs ih =>
    cases s with
    | nil => simp [matchTokens]
    | cons a s =>
      simp only [List.map_cons, List.cons_append, matchTokens, Token.accepts, Bool.and_eq_true, ih,
        beq_iff_eq, List.cons.injEq]
      constructor
      · rintro ⟨rfl, t, rfl, ht⟩
        exact ⟨t, ⟨rfl, rfl⟩, ht⟩
      · rintro ⟨t, ⟨rfl, rfl⟩, ht⟩
        exact ⟨rfl, t, rfl, ht⟩

theorem anyTail_iff {p : List CodePoint → Bool} {cs : List CodePoint} :
    anyTail p cs = true ↔ ∃ t, t <:+ cs ∧ p t = true := by
  induction cs with
  | nil => simp [anyTail]
  | cons c cs ih =>
    simp only [anyTail, Bool.or_eq_true, ih, List.suffix_cons_iff]
    constructor
    · rintro (h | ⟨t, ht, h⟩)
      · exact ⟨_, Or.inl rfl, h⟩
      · exact ⟨t, Or.inr ht, h⟩
    · rintro ⟨t, rfl | ht, h⟩
      · exact Or.inl h
      · exact Or.inr ⟨t, ht, h⟩

theorem matchTokens_star {ts : List Token} {s : List CodePoint} :
    matchTokens (.star :: ts) s = true ↔ ∃ t, t <:+ s ∧ matchTokens ts t = true := by
  rw [matchTokens, anyTail_iff]

/-- Two stars at the end match everything. -/
theorem matchTokens_stars (s : List CodePoint) : matchTokens [.star, .star] s = true :=
  matchTokens_star.2 ⟨s, List.suffix_rfl, matchTokens_star.2 ⟨[], List.nil_suffix, rfl⟩⟩

end Glob

/-! ## The pattern of a folder -/

variable {name : Text} {names : List Text}

namespace IsFolderName

theorem matches_top (h : IsFolderName name) (path : Text) :
    Glob.matches (name ++ "/**") path = true ↔ name.toList ++ [.char '/'] <+: path.toList := by
  have htokens : Glob.tokens (name ++ "/**").toList =
      (name.toList ++ [CodePoint.char '/']).map .char ++ [.star, .star] := by
    have hsplit : (name ++ "/**").toList =
        (name.toList ++ [.char '/']) ++ [.char '*', .char '*'] := by simp
    rw [hsplit, Glob.tokens_plain, Glob.tokens_star, Glob.tokens_star, Glob.tokens]
    intro c hc
    rcases List.mem_append.1 hc with hc | hc
    · exact (h.plain c hc).2
    · rw [List.mem_singleton.1 hc]
      decide
  rw [Glob.matches_eq, htokens, Glob.matchTokens_chars]
  simp only [Glob.matchTokens_stars, and_true]
  exact exists_congr fun t => eq_comm

theorem matches_nested (h : IsFolderName name) (path : Text) :
    Glob.matches ("**/" ++ (name ++ "/**")) path = true ↔ between name <:+: path.toList := by
  have htokens : Glob.tokens ("**/" ++ (name ++ "/**")).toList =
      .star :: .star :: ((between name).map .char ++ [.star, .star]) := by
    have hsplit : ("**/" ++ (name ++ "/**")).toList =
        .char '*' :: .char '*' :: (between name ++ [.char '*', .char '*']) := by
      simp [between]
    rw [hsplit, Glob.tokens_star, Glob.tokens_star, Glob.tokens_plain, Glob.tokens_star,
      Glob.tokens_star, Glob.tokens]
    intro c hc
    rcases List.mem_cons.1 hc with rfl | hc
    · decide
    · rcases List.mem_append.1 hc with hc | hc
      · exact (h.plain c hc).2
      · rw [List.mem_singleton.1 hc]
        decide
  rw [Glob.matches_eq, htokens, Glob.matchTokens_star]
  simp only [Glob.matchTokens_star, Glob.matchTokens_chars, Glob.matchTokens_stars, and_true]
  rw [List.infix_iff_prefix_suffix]
  constructor
  · rintro ⟨t, ht, u, hu, v, rfl⟩
    exact ⟨_, List.prefix_append _ _, hu.trans ht⟩
  · rintro ⟨u, ⟨v, rfl⟩, hu⟩
    exact ⟨_, hu, _, List.suffix_rfl, v, rfl⟩

theorem expand_eq (h : IsFolderName name) :
    Pattern.expand (name ++ "/**") = [name ++ "/**", "**/" ++ (name ++ "/**")] := by
  obtain ⟨c, cs, hcs⟩ := List.exists_cons_of_ne_nil h.toList_ne_nil
  have hc := h.start c (by rw [hcs]; rfl)
  have hplain := h.plain c (by rw [hcs]; exact List.mem_cons_self)
  have htrim : Text.trim (name ++ "/**") = name ++ "/**" := by
    refine Text.trim_eq_self (fun a ha => ?_) (fun a ha => ?_)
    · have hfirst : c = a := by simpa [hcs] using ha
      exact hfirst ▸ hc.2
    · have hlast : .char '*' = a := by simpa using ha
      exact hlast ▸ (by decide)
  have hslash : Text.occurs "/**" (name ++ "/**") = true := by
    rw [Text.occurs, Text.occursIn_iff]
    exact ⟨name.toList, [], by simp⟩
  unfold Pattern.expand
  simp [htrim, hslash, hcs, hc.1.symm, hplain.2.1.symm]

/-- The two globs of a folder's pattern find its name between slashes, one of which may be put before
the path. -/
theorem matches_expand_iff (h : IsFolderName name) (path : Text) :
    (∃ g ∈ Pattern.expand (name ++ "/**"), Glob.matches g path = true) ↔
      between name <:+: .char '/' :: path.toList := by
  rw [h.expand_eq, between, List.infix_cons_iff, List.cons_prefix_cons, ← between]
  simp [h.matches_top, h.matches_nested]

end IsFolderName

/-- The globs that the patterns of folders stand for. -/
def folderGlobs (names : List Text) : List Text :=
  Pattern.expandAll (names.map (· ++ "/**"))

/-- A path is left alone if no name before its last slash is excluded. -/
theorem folderGlobs_pass_iff (h : ∀ name ∈ names, IsFolderName name) {path : Text}
    {folders : List Text} (tail : List CodePoint) (hfolders : ∀ n ∈ folders, .char '/' ∉ n.toList)
    (htail : .char '/' ∉ tail)
    (hpath : .char '/' :: path.toList = slashed folders ++ .char '/' :: tail) :
    (∀ g ∈ folderGlobs names, Glob.matches g path = false) ↔
      ∀ name ∈ folders, name ∉ names := by
  have hmatch : ∀ name ∈ names, (∃ g ∈ Pattern.expand (name ++ "/**"),
      Glob.matches g path = true) ↔ name ∈ folders := by
    intro name hname
    rw [(h name hname).matches_expand_iff, hpath,
      between_infix_iff (h name hname).noSlash hfolders htail]
  constructor
  · intro hpass name hin hname
    obtain ⟨g, hg, hmatches⟩ := (hmatch name hname).2 hin
    have hg' : g ∈ folderGlobs names :=
      (Pattern.mem_expandAll _ g).2 ⟨_, List.mem_map_of_mem hname, hg⟩
    rw [hpass g hg'] at hmatches
    cases hmatches
  · intro hnone g hg
    obtain ⟨_, hp, hg⟩ := (Pattern.mem_expandAll _ g).1 hg
    obtain ⟨name, hname, rfl⟩ := List.mem_map.1 hp
    rw [Bool.eq_false_iff]
    exact fun hmatches => hnone name ((hmatch name hname).1 ⟨g, hg, hmatches⟩) hname

/-! ## The globs of a configuration -/

namespace Config

/-- A loaded configuration has the globs of its own exclude patterns. -/
theorem get?_excludeGlobs {env : Environment} {folder : Option Text} {overrides : Value}
    {config : Fields} {patterns : List Text} (h : load env folder overrides = .ok config)
    (hp : config.get? "exclude_patterns" = some (.list (patterns.map .text))) :
    config.get? "exclude_globs" = some (.list ((Pattern.expandAll patterns).map .text)) := by
  obtain ⟨found, -, hfound, hglobs⟩ := exists_excludeGlobs h
  rw [hglobs, hfound patterns hp]

/-- There is no limit of a file's size: its setting counts as nothing, or stands for a number that
is not positive. -/
def Unlimited (config : Fields) : Prop :=
  ∃ v limit, (config.get? "max_file_size_kb").getD (.int 0) = v ∧
    (if v.truthy then v.integer else .ok 0) = .ok limit ∧ limit ≤ 0

end Config

/-! ## Scans -/

namespace Scan

variable {d : Disk} {base path : List Text} {top : FileNode} {extensions : List Text}
  {limit : Rat}

/-- In a tree without links all of whose folders can be listed, the eligible files are those outside
the excluded folders. -/
theorem eligible_folderGlobs_iff (h : ∀ name ∈ names, IsFolderName name) (htop : top.WellNamed)
    (hfolder : ∃ entries, top = .folder entries)
    (hlinks : ∀ path target, top.find? path ≠ some (.link target))
    (hlist : ∀ q, base ++ q ∉ d.unlistable) (hlimit : limit ≤ 0) :
    Eligible d base top extensions (folderGlobs names) limit path ↔
      (∃ content, top.find? path = some (.file content)) ∧
      Text.lower (extension (path.getLast?.getD "")) ∈ extensions.map Text.lower ∧
      ∀ name ∈ path.dropLast, name ∉ names := by
  obtain ⟨entries, rfl⟩ := hfolder
  rcases List.eq_nil_or_concat path with rfl | ⟨folders, last, rfl⟩
  · constructor
    · rintro ⟨⟨n, content, hfound, hholds, -⟩, -⟩
      cases hfound
      rcases hholds with hfile | ⟨⟨_, hlink⟩, -⟩
      · cases hfile
      · cases hlink
    · rintro ⟨⟨content, hfound⟩, -⟩
      cases hfound
  · rw [List.concat_eq_append, List.dropLast_concat]
    have hslashes : ∀ {n : FileNode}, (FileNode.folder entries).find? (folders ++ [last]) = some n →
        ∀ name ∈ folders ++ [last], .char '/' ∉ name.toList :=
      fun hfound name hname => (htop.isEntryName hfound name hname).noSlash
    have hfile : ∀ {n : FileNode}, (FileNode.folder entries).find? (folders ++ [last]) = some n →
        ((∀ g ∈ folderGlobs names, Glob.matches g (relText (folders ++ [last])) = false) ↔
          ∀ name ∈ folders, name ∉ names) := by
      intro n hfound
      refine folderGlobs_pass_iff h last.toList (fun name hname => ?_) ?_ ?_
      · exact hslashes hfound name (List.mem_append_left _ hname)
      · exact hslashes hfound last (List.mem_append_right _ (List.mem_singleton.2 rfl))
      · rw [slash_relText (by simp)]
        simp [slashed]
    constructor
    · rintro ⟨⟨n, content, hfound, hholds, -⟩, hname, hincluded, -⟩
      rcases hholds with rfl | ⟨⟨target, rfl⟩, -⟩
      · exact ⟨⟨content, hfound⟩, hname, (hfile hfound).1 hincluded⟩
      · exact absurd hfound (hlinks _ target)
    · rintro ⟨⟨content, hfound⟩, hname, hnone⟩
      refine ⟨⟨_, content, hfound, Or.inl rfl, Or.inl hlimit⟩, hname, (hfile hfound).2 hnone,
        fun q hq hnil hne => ⟨folder_above hfound hq hne, hlist q, ?_⟩⟩
      have hbefore : q <+: folders := (List.prefix_concat_iff.1 hq).resolve_left hne
      refine (folderGlobs_pass_iff h [] (fun name hname => ?_) nofun ?_).2
        fun name hname => hnone name (hbefore.subset hname)
      · exact hslashes hfound name (hq.subset hname)
      · rw [← slash_relText hnil]
        simp

/-- Under the exclude patterns of folders and no limit of size, a scan of a tree without links lists
the files of known languages that lie in none of these folders, at whatever depth. -/
theorem sources_outside_folders {env : Config.Environment} {folder : Option Text}
    {overrides : Value} {config : Fields} {root : SourcePath} {entries : List (Text × FileNode)}
    (hload : Config.load env folder overrides = .ok config)
    (hpatterns : config.get? "exclude_patterns" =
      some (.list ((names.map fun name : Text => name ++ "/**").map .text)))
    (hnames : ∀ name ∈ names, IsFolderName name) (hunlimited : Config.Unlimited config)
    (hd : d.LinkFree root.parts) (hs : d.stat root.parts = .ok (.folder entries))
    (hlist : ∀ q, root.parts ++ q ∉ d.unlistable) :
    ∃ out, sources d root (.dict config) = .ok out ∧ ∀ path, path ∈ out ↔
      (∃ content, d.raw? (root.parts ++ path) = some (.file content)) ∧
      Text.lower (extension (path.getLast?.getD "")) ∈ Language.allExtensions ∧
      ∀ name ∈ path.dropLast, name ∉ names := by
  have hglobs := Config.get?_excludeGlobs hload hpatterns
  obtain ⟨v, limit, hv, hlimit, hpos⟩ := hunlimited
  have htruthy : (Value.dict config).truthy = true := by
    cases config with
    | nil => cases hglobs
    | cons => rfl
  have htyped : WellTyped (.dict config) (folderGlobs names) limit := by
    refine ⟨⟨.list ((folderGlobs names).map .text), rfl, ?_⟩, v, hlimit, ?_⟩
    · rw [if_pos htruthy, Value.field, hglobs]
      rfl
    · rw [if_pos htruthy, Value.field, hv]
  have hlower : Language.allExtensions.map Text.lower = Language.allExtensions := by decide +kernel
  have hrules : sourceRules (folderGlobs names) limit =
      .plain Language.allExtensions (folderGlobs names) limit := by
    rw [sourceRules, Rules.plain, hlower]
  have hraw : ∀ path, d.raw? (root.parts ++ path) = (FileNode.folder entries).find? path := by
    intro path
    have hroot : d.top.find? root.parts = some (.folder entries) :=
      Disk.stat_direct hd.direct_base hs
    rw [Disk.raw?, FileNode.find?_append, hroot, Option.bind_some]
  have hlinks : ∀ path target, (FileNode.folder entries).find? path ≠ some (.link target) :=
    fun path target => hraw path ▸ hd.noLinks path target
  have hroot : root.parts ∉ d.unlistable := by
    have := hlist []
    rwa [List.append_nil] at this
  rw [sources_eq htyped, hrules]
  rcases files_plain hd.named hs hroot Language.allExtensions (folderGlobs names) limit with
    ⟨out, hout, -, hmem, -⟩ | ⟨path, e, hstuck, -⟩
  · refine ⟨out, hout, fun path => ?_⟩
    rw [hmem, eligible_folderGlobs_iff hnames (Disk.wellNamed_of_stat hd.named hs) ⟨_, rfl⟩ hlinks
      hlist (Rat.intCast_nonpos.2 hpos), hlower, hraw]
  · obtain ⟨target, hlink⟩ := hstuck.link
    exact absurd hlink (hlinks path target)

namespace Sample

/-- A folder `vendor` at two depths, and one whose name ends in the same way. -/
def vendored : List (Text × FileNode) := [
  ("vendor", .folder [("a.py", .file [])]),
  ("lib", .folder [
    ("vendor", .folder [("b.py", .file [])]),
    ("myvendor", .folder [("c.py", .file [])])])]

def excluding (name : Text) : Value :=
  .dict [("exclude_patterns", .list [.text (name ++ "/**")]), ("max_file_size_kb", .int 0)]

end Sample

/-- What lies in the excluded folder is left out at both depths, what lies beside it is not. -/
theorem vendored_sources : ∃ config out,
    Config.load [] none (Sample.excluding "vendor") = .ok config ∧
    (Sample.disk Sample.vendored).LinkFree Sample.root.parts ∧
    sources (Sample.disk Sample.vendored) Sample.root (.dict config) = .ok out ∧
    (["lib", "myvendor", "c.py"] : List Text) ∈ out ∧
    (["vendor", "a.py"] : List Text) ∉ out ∧
    (["lib", "vendor", "b.py"] : List Text) ∉ out := by
  have hleaf : ∀ name, IsEntryName name →
      (FileNode.folder [(name, .file [])]).WellNamed := fun name hname =>
    FileNode.wellNamed_folder (by simpa using hname) (List.nodup_singleton name)
      (by simp [FileNode.wellNamed_file])
  have hlib : (FileNode.folder [("vendor", .folder [("b.py", .file [])]),
      ("myvendor", .folder [("c.py", .file [])])]).WellNamed :=
    FileNode.wellNamed_folder (by decide) (by decide)
      (by simp [hleaf "b.py" (by decide), hleaf "c.py" (by decide)])
  have hd : (Sample.disk Sample.vendored).LinkFree Sample.root.parts := by
    refine ⟨Sample.wellNamed (FileNode.wellNamed_folder (by decide) (by decide) ?_), ⟨_, rfl⟩,
      fun path target hlink => ?_⟩
    · simp [Sample.vendored, hleaf "a.py" (by decide), hlib]
    · exact List.not_mem_nil (FileNode.mem_linkPaths hlink)
  obtain ⟨config, hload, hpatterns, hunlimited⟩ : ∃ config,
      Config.load [] none (Sample.excluding "vendor") = .ok config ∧
      config.get? "exclude_patterns" =
        some (.list ((["vendor"].map fun name : Text => name ++ "/**").map .text)) ∧
      Config.Unlimited config :=
    ⟨_, rfl, rfl, _, 0, rfl, rfl, by decide⟩
  have hname : IsFolderName "vendor" := by
    refine ⟨by decide, by simp, fun c hc => ?_⟩
    cases hc
    decide
  have hnames : ∀ name ∈ (["vendor"] : List Text), IsFolderName name := by simpa using hname
  obtain ⟨out, hout, hmem⟩ := sources_outside_folders hload hpatterns hnames hunlimited hd rfl nofun
  refine ⟨config, out, hload, hd, hout, (hmem _).2 ⟨⟨[], rfl⟩, by decide, by decide⟩,
    fun hin => ?_, fun hin => ?_⟩
  · exact ((hmem _).1 hin).2.2 "vendor" (by decide) (by decide)
  · exact ((hmem _).1 hin).2.2 "vendor" (by decide) (by decide)

end Scan

end CodeAtlas
