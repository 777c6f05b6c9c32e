import CodeAtlas.Proofs.File.Tree
import Mathlib.Data.List.Induction
import Mathlib.Data.List.Perm.Subperm

/-!
# Links that lead somewhere

There are two ways to follow links. Looking a path up walks along it and gives up after forty links;
telling the path without links remembers every link and stops where it meets one that it is still
following. A path that leads to a file is never stopped:

    d.stat path.parts = .ok (.file content) → ∃ p, d.resolve path = .ok p        (resolve_of_stat)

The walk is a derivation that counts its links (`Leads`). A link that is still being followed would
take fewer links than itself to get through, so none is met again (`follows`). Every link is entered
once, so that the number of links on the disk is enough.
-/

namespace CodeAtlas

/-! ## Counting links -/

namespace FileNode

mutual

/-- The paths of the links at a node and below. -/
def linkPaths : FileNode → List (List Text)
  | .file _ => []
  | .link _ => [[]]
  | .folder entries => linkPathsIn entries

def linkPathsIn : List (Text × FileNode) → List (List Text)
  | [] => []
  | (name, n) :: rest => n.linkPaths.map (name :: ·) ++ linkPathsIn rest

end

mutual

theorem length_linkPaths : ∀ n : FileNode, n.linkPaths.length = n.linkCount
  | .file _ => rfl
  | .link _ => rfl
  | .folder entries => by
    rw [linkPaths, linkCount]
    exact length_linkPathsIn entries

theorem length_linkPathsIn :
    ∀ entries : List (Text × FileNode), (linkPathsIn entries).length = linkCounts entries
  | [] => rfl
  | (name, n) :: rest => by
    rw [linkPathsIn, linkCounts, List.length_append, List.length_map, length_linkPaths n,
      length_linkPathsIn rest]

end

theorem mem_linkPathsIn {entries : List (Text × FileNode)} {name : Text} {n : FileNode}
    {path : List Text} (he : (name, n) ∈ entries) (hp : path ∈ n.linkPaths) :
    name :: path ∈ linkPathsIn entries := by
  induction entries with
  | nil => cases he
  | cons e rest ih =>
    obtain ⟨k, m⟩ := e
    unfold linkPathsIn
    rw [List.mem_append]
    rcases List.mem_cons.1 he with heq | hrest
    · cases heq
      exact Or.inl (List.mem_map_of_mem hp)
    · exact Or.inr (ih hrest)

theorem mem_linkPaths {n : FileNode} {path : List Text} {target : Text}
    (h : n.find? path = some (.link target)) : path ∈ n.linkPaths := by
  induction path generalizing n with
  | nil =>
    rw [find?_nil, Option.some.injEq] at h
    subst h
    exact List.mem_singleton.2 rfl
  | cons p ps ih =>
    cases n with
    | file => cases h
    | link => cases h
    | folder entries =>
      rw [find?_folder] at h
      obtain ⟨m, hm, h⟩ := Option.bind_eq_some_iff.1 h
      exact mem_linkPathsIn (mem_of_lookup hm) (ih h)

/-- There are no more links than are counted. -/
theorem length_le_linkCount {n : FileNode} {paths : List (List Text)} (hn : paths.Nodup)
    (h : ∀ path ∈ paths, ∃ target, n.find? path = some (.link target)) :
    paths.length ≤ n.linkCount := by
  rw [← length_linkPaths]
  refine (hn.subperm fun path hpath => ?_).length_le
  obtain ⟨target, htarget⟩ := h path hpath
  exact mem_linkPaths htarget

end FileNode

namespace Disk

/-! ## Walks -/

/-- A walk from the folder `here` along steps to `dest`, through a number of links. -/
inductive Leads (d : Disk) : List Text → List Text → List Text → Nat → Prop
  | done (here : List Text) : Leads d here [] here 0
  | stay {here ps dest : List Text} {n : Nat} {entries : List (Text × FileNode)} {p : Text}
    (hf : d.raw? here = some (.folder entries)) (hp : p = ".") (h : Leads d here ps dest n) :
    Leads d here (p :: ps) dest n
  | up {here ps dest : List Text} {n : Nat} {entries : List (Text × FileNode)} {p : Text}
    (hf : d.raw? here = some (.folder entries)) (hp : p = "..")
    (h : Leads d here.dropLast ps dest n) : Leads d here (p :: ps) dest n
  | enter {here ps dest : List Text} {n : Nat} {entries : List (Text × FileNode)} {p : Text}
    {m : FileNode} (hf : d.raw? here = some (.folder entries)) (hp : p ≠ "." ∧ p ≠ "..")
    (hm : entries.lookup p = some m) (hnot : ∀ target, m ≠ .link target)
    (h : Leads d (here ++ [p]) ps dest n) : Leads d here (p :: ps) dest n
  | follow {here ps dest : List Text} {n : Nat} {entries : List (Text × FileNode)} {p : Text}
    {target : Text} (hf : d.raw? here = some (.folder entries)) (hp : p ≠ "." ∧ p ≠ "..")
    (hm : entries.lookup p = some (.link target))
    (h : Leads d (linkBase here target) (linkSteps target ++ ps) dest n) :
    Leads d here (p :: ps) dest (n + 1)

variable {d : Disk}

theorem leads_of_walkSteps {enter : List Text → List Text → Except LookupError (List Text)}
    (henter : ∀ here steps dest, enter here steps = .ok dest → ∃ n, d.Leads here steps dest n)
    {here steps dest : List Text} (h : d.walkSteps enter here steps = .ok dest) :
    ∃ n, d.Leads here steps dest n := by
  induction steps generalizing here with
  | nil =>
    cases h
    exact ⟨0, .done _⟩
  | cons p ps ih =>
    unfold walkSteps at h
    split at h
    · next entries hf =>
      split at h
      · next hp =>
        obtain ⟨n, hn⟩ := ih h
        exact ⟨n, .stay hf hp hn⟩
      · next hstay =>
        split at h
        · next hp =>
          obtain ⟨n, hn⟩ := ih h
          exact ⟨n, .up hf hp hn⟩
        · next hup =>
          split at h
          · cases h
          · split at h
            · cases h
            · next target hm =>
              obtain ⟨n, hn⟩ := henter _ _ _ h
              exact ⟨n + 1, .follow hf ⟨hstay, hup⟩ hm hn⟩
            · next m hnot hm =>
              obtain ⟨n, hn⟩ := ih h
              exact ⟨n, .enter hf ⟨hstay, hup⟩ hm (fun target ht => hnot target ht) hn⟩
    · cases h
    · cases h

theorem leads_of_walk {links : Nat} {here steps dest : List Text}
    (h : d.walk links here steps = .ok dest) : ∃ n, d.Leads here steps dest n := by
  induction links generalizing here steps dest with
  | zero => exact leads_of_walkSteps (fun _ _ _ hw => by cases hw) h
  | succ links ih => exact leads_of_walkSteps (fun _ _ _ hw => ih hw) h

theorem Leads.deterministic {here steps dest dest' : List Text} {n n' : Nat}
    (h : d.Leads here steps dest n) (h' : d.Leads here steps dest' n') : dest = dest' ∧ n = n' := by
  induction h generalizing dest' n' with
  | done here =>
    cases h'
    exact ⟨rfl, rfl⟩
  | stay hf hp _ ih =>
    subst hp
    cases h' with
    | stay _ _ h' => exact ih h'
    | up _ hp' => exact absurd hp' (by decide)
    | enter _ hp' => exact absurd rfl hp'.1
    | follow _ hp' => exact absurd rfl hp'.1
  | up hf hp _ ih =>
    subst hp
    cases h' with
    | stay _ hp' => exact absurd hp' (by decide)
    | up _ _ h' => exact ih h'
    | enter _ hp' => exact absurd rfl hp'.2
    | follow _ hp' => exact absurd rfl hp'.2
  | enter hf hp hm hnot _ ih =>
    cases h' with
    | stay _ hp' => exact absurd hp' hp.1
    | up _ hp' => exact absurd hp' hp.2
    | enter _ _ _ _ h' => exact ih h'
    | follow hf' _ hm' =>
      cases hf.symm.trans hf'
      cases hm.symm.trans hm'
      exact absurd rfl (hnot _)
  | follow hf hp hm _ ih =>
    cases h' with
    | stay _ hp' => exact absurd hp' hp.1
    | up _ hp' => exact absurd hp' hp.2
    | enter hf' _ hm' hnot' =>
      cases hf.symm.trans hf'
      cases hm.symm.trans hm'
      exact absurd rfl (hnot' _)
    | follow hf' _ hm' h' =>
      cases hf.symm.trans hf'
      cases hm.symm.trans hm'
      obtain ⟨hdest, hn⟩ := ih h'
      exact ⟨hdest, by rw [hn]⟩

/-- A walk can be cut anywhere. -/
theorem Leads.split {here steps dest : List Text} {n : Nat} (h : d.Leads here steps dest n) :
    ∀ a b, steps = a ++ b →
      ∃ mid i j, d.Leads here a mid i ∧ d.Leads mid b dest j ∧ i + j = n := by
  induction h with
  | done here =>
    intro a b hab
    obtain ⟨rfl, rfl⟩ := List.append_eq_nil_iff.1 hab.symm
    exact ⟨here, 0, 0, .done here, .done here, rfl⟩
  | stay hf hp h ih =>
    rintro (_ | ⟨q, a⟩) b hab
    · cases List.nil_append b ▸ hab
      exact ⟨_, 0, _, .done _, .stay hf hp h, Nat.zero_add _⟩
    · obtain ⟨rfl, hps⟩ := List.cons.inj hab
      obtain ⟨mid, i, j, hi, hj, hij⟩ := ih a b hps
      exact ⟨mid, i, j, .stay hf hp hi, hj, hij⟩
  | up hf hp h ih =>
    rintro (_ | ⟨q, a⟩) b hab
    · cases List.nil_append b ▸ hab
      exact ⟨_, 0, _, .done _, .up hf hp h, Nat.zero_add _⟩
    · obtain ⟨rfl, hps⟩ := List.cons.inj hab
      obtain ⟨mid, i, j, hi, hj, hij⟩ := ih a b hps
      exact ⟨mid, i, j, .up hf hp hi, hj, hij⟩
  | enter hf hp hm hnot h ih =>
    rintro (_ | ⟨q, a⟩) b hab
    · cases List.nil_append b ▸ hab
      exact ⟨_, 0, _, .done _, .enter hf hp hm hnot h, Nat.zero_add _⟩
    · obtain ⟨rfl, hps⟩ := List.cons.inj hab
      obtain ⟨mid, i, j, hi, hj, hij⟩ := ih a b hps
      exact ⟨mid, i, j, .enter hf hp hm hnot hi, hj, hij⟩
  | @follow here ps dest n entries p target hf hp hm h ih =>
    rintro (_ | ⟨q, a⟩) b hab
    · cases List.nil_append b ▸ hab
      exact ⟨_, 0, _, .done _, .follow hf hp hm h, Nat.zero_add _⟩
    · obtain ⟨rfl, rfl⟩ := List.cons.inj hab
      -- what the cut leaves of the steps comes after the steps of the target
      obtain ⟨mid, i, j, hi, hj, hij⟩ := ih (linkSteps target ++ a) b (List.append_assoc ..).symm
      exact ⟨mid, i + 1, j, .follow hf hp hm hi, hj, by omega⟩

/-! ## Where a link leads -/

/-- The steps of a target that are not empty. -/
def targetSteps (target : Text) : List Text :=
  (SourcePath.splitSlash target.toList).filter (· != "")

/-- Where the link at a path leads, and how many links lie on the way. -/
def LinkLeads (d : Disk) (link path : List Text) (n : Nat) : Prop :=
  ∃ target, d.raw? link = some (.link target) ∧
    d.Leads (linkBase link.dropLast target) (targetSteps target) path n

theorem LinkLeads.deterministic {link path path' : List Text} {n n' : Nat}
    (h : d.LinkLeads link path n) (h' : d.LinkLeads link path' n') : path = path' ∧ n = n' := by
  obtain ⟨target, ht, hl⟩ := h
  obtain ⟨target', ht', hl'⟩ := h'
  rw [ht] at ht'
  cases ht'
  exact hl.deterministic hl'

/-- A slash at the end of a target asks for a folder, but leads nowhere else. -/
theorem Leads.target {here path : List Text} {target : Text} {n : Nat}
    (h : d.Leads here (linkSteps target) path n) : d.Leads here (targetSteps target) path n := by
  unfold linkSteps at h
  dsimp only at h
  split at h
  · obtain ⟨mid, i, j, hi, hj, hij⟩ := h.split _ _ rfl
    cases hj with
    | stay _ _ hj =>
      cases hj
      exact hij ▸ hi
    | up _ hp => exact absurd hp (by decide)
    | enter _ hp => exact absurd rfl hp.1
    | follow _ hp => exact absurd rfl hp.1
  · exact h

/-! ## Following -/

/-- A disk on which all links can be asked about and every name can be part of a path. -/
structure IsPlain (d : Disk) : Prop where
  named : d.top.WellNamed
  namesOk : ∀ path entries, d.raw? path = some (.folder entries) →
    ∀ e ∈ entries, pathError? [e.1] = none
  short : ∀ path target, d.raw? path = some (.link target) →
    (pathText path).diskSize < pathByteLimit

/-- What is there can be asked about. -/
theorem IsPlain.pathError?_of_raw? (hd : d.IsPlain) {path : List Text} {n : FileNode}
    (hn : d.raw? path = some n) : pathError? path = none := by
  rw [pathError?_eq_none_iff]
  induction path using List.reverseRecOn generalizing n with
  | nil => nofun
  | append_singleton ps p ih =>
    have hn' : (d.raw? ps).bind (·.find? [p]) = some n := by
      rw [← hn]
      exact (FileNode.find?_append ..).symm
    obtain ⟨m, hm, hp⟩ := Option.bind_eq_some_iff.1 hn'
    cases m with
    | file => cases hp
    | link => cases hp
    | folder entries =>
      rw [FileNode.find?_folder] at hp
      obtain ⟨k, hk, -⟩ := Option.bind_eq_some_iff.1 hp
      have hlast := hd.namesOk _ _ hm _ (FileNode.mem_of_lookup hk)
      intro q hq
      rcases List.mem_append.1 hq with hq | hq
      · exact ih hm q hq
      · exact pathError?_eq_none_iff.1 hlast q hq

theorem IsPlain.link?_of_link (hd : d.IsPlain) {path : List Text} {target : Text}
    (h : d.raw? path = some (.link target)) : d.link? path = some target := by
  unfold link?
  rw [if_neg (by have := hd.short path target h; omega), h]

theorem link?_of_not_link {path : List Text} {m : FileNode} (h : d.raw? path = some m)
    (hnot : ∀ target, m ≠ .link target) : d.link? path = none := by
  unfold link?
  split
  · rfl
  · rw [h]
    split
    · next target ht => exact absurd (Option.some.inj ht) (hnot target)
    · rfl

/-- What is remembered of links: where those that were followed lead, and that the others are on
the stack. -/
structure Remembers (d : Disk) (followed : Followed) (stack : List (List Text)) : Prop where
  known : ∀ link path, followed.lookup link = some (some path) → ∃ n, d.LinkLeads link path n
  pending : ∀ link, followed.lookup link = some none → link ∈ stack

/-- The links that are being followed: each takes at least `n` links to get through. -/
structure Stacked (d : Disk) (stack : List (List Text)) (n : Nat) : Prop where
  nodup : stack.Nodup
  link : ∀ link ∈ stack, ∃ target, d.raw? link = some (.link target)
  deep : ∀ link ∈ stack, ∀ path m, d.LinkLeads link path m → n ≤ m

theorem Stacked.mono {stack : List (List Text)} {m n : Nat} (h : d.Stacked stack n)
    (hmn : m ≤ n) : d.Stacked stack m :=
  ⟨h.nodup, h.link, fun link hl path k hk => Nat.le_trans hmn (h.deep link hl path k hk)⟩

/-- A link that is met on a walk of `n` links takes fewer, so that it is not being followed. -/
theorem Stacked.push {stack : List (List Text)} {n m : Nat} (h : d.Stacked stack n)
    {link path : List Text} (hl : d.LinkLeads link path m) (hmn : m < n) :
    link ∉ stack ∧ d.Stacked (link :: stack) m := by
  have hnot : link ∉ stack := by
    intro hin
    have := h.deep link hin path m hl
    omega
  refine ⟨hnot, List.nodup_cons.2 ⟨hnot, h.nodup⟩, ?_, ?_⟩
  · intro other hother
    rcases List.mem_cons.1 hother with rfl | hother
    · obtain ⟨target, ht, -⟩ := hl
      exact ⟨target, ht⟩
    · exact h.link other hother
  · intro other hother path' k hk
    rcases List.mem_cons.1 hother with rfl | hother
    · exact Nat.le_of_eq (hl.deterministic hk).2
    · have := h.deep other hother path' k hk
      omega

/-- A link that is entered is being followed. -/
theorem Remembers.enter {followed : Followed} {stack : List (List Text)}
    (hr : d.Remembers followed stack) (link : List Text) :
    d.Remembers ((link, none) :: followed) (link :: stack) := by
  constructor
  · intro other path hother
    by_cases hsame : other = link
    · subst hsame
      simp at hother
    · rw [List.lookup_cons, beq_eq_false_iff_ne.2 hsame] at hother
      exact hr.known other path hother
  · intro other hother
    by_cases hsame : other = link
    · exact List.mem_cons.2 (Or.inl hsame)
    · rw [List.lookup_cons, beq_eq_false_iff_ne.2 hsame] at hother
      exact List.mem_cons_of_mem _ (hr.pending other hother)

/-- A link that was followed to its end is known. -/
theorem Remembers.leave {followed : Followed} {stack : List (List Text)} {link path : List Text}
    {n : Nat} (hr : d.Remembers followed (link :: stack)) (hl : d.LinkLeads link path n) :
    d.Remembers ((link, some path) :: followed) stack := by
  constructor
  · intro other path' hother
    by_cases hsame : other = link
    · subst hsame
      simp only [List.lookup_cons_self, Option.some.injEq] at hother
      subst hother
      exact ⟨n, hl⟩
    · rw [List.lookup_cons, beq_eq_false_iff_ne.2 hsame] at hother
      exact hr.known other path' hother
  · intro other hother
    by_cases hsame : other = link
    · subst hsame
      simp at hother
    · rw [List.lookup_cons, beq_eq_false_iff_ne.2 hsame] at hother
      exact (List.mem_cons.1 (hr.pending other hother)).resolve_left hsame

/-- A step to an entry that is no link. -/
theorem IsPlain.followSteps_enter (hd : d.IsPlain)
    {enter : Followed → List Text → Text → Except ResolveError (Trail × Followed)}
    {followed : Followed} {here ps : List Text} {p : Text}
    {entries : List (Text × FileNode)} {m : FileNode} (hempty : p ≠ "")
    (hf : d.raw? here = some (.folder entries)) (hp : p ≠ "." ∧ p ≠ "..")
    (hm : entries.lookup p = some m) (hnot : ∀ target, m ≠ .link target) :
    d.followSteps enter followed here (p :: ps) =
      d.followSteps enter followed (here ++ [p]) ps := by
  have hentry := raw?_entry hf hm
  rw [followSteps, if_neg (by simp [hempty, hp.1]), if_neg hp.2, hd.pathError?_of_raw? hentry,
    link?_of_not_link hentry hnot]

/-- A step to a link: where it leads is known, or it is followed first. -/
theorem IsPlain.followSteps_link (hd : d.IsPlain)
    {enter : Followed → List Text → Text → Except ResolveError (Trail × Followed)}
    {followed : Followed} {here ps : List Text} {p target : Text}
    {entries : List (Text × FileNode)} (hempty : p ≠ "")
    (hf : d.raw? here = some (.folder entries)) (hp : p ≠ "." ∧ p ≠ "..")
    (hm : entries.lookup p = some (.link target)) :
    d.followSteps enter followed here (p :: ps) =
      match followed.lookup (here ++ [p]) with
      | some (some path) => d.followSteps enter followed path ps
      | some none => .ok (.circled (.join ⟨.single, here ++ [p]⟩ (ofSteps ps)), followed)
      | none =>
        match enter ((here ++ [p], none) :: followed) here target with
        | .error e => .error e
        | .ok (.circled path, followed) => .ok (.circled (path.join (ofSteps ps)), followed)
        | .ok (.reached path, followed) =>
          d.followSteps enter ((here ++ [p], some path) :: followed) path ps := by
  have hentry := raw?_entry hf hm
  rewrite [followSteps, if_neg (by simp [hempty, hp.1]), if_neg hp.2,
    hd.pathError?_of_raw? hentry, hd.link?_of_link hentry]
  rfl

/-- With fuel for the links that are not on the stack, a walk is followed to its end. -/
theorem follows (hd : d.IsPlain) (n : Nat) :
    ∀ (fuel : Nat) (stack : List (List Text)) (steps here dest : List Text)
      (followed : Followed), stack.length + fuel = d.top.linkCount → d.Stacked stack n →
      d.Remembers followed stack → d.Leads here (steps.filter (· != "")) dest n →
      ∃ followed', d.followSteps (d.followLink fuel) followed here steps =
        .ok (.reached dest, followed') ∧ d.Remembers followed' stack := by
  -- on the number of links, and for one number on the steps
  induction n using Nat.strongRecOn with
  | _ n ih =>
    intro fuel stack steps
    induction steps with
    | nil =>
      intro here dest followed _ _ hr hl
      cases hl
      exact ⟨followed, rfl, hr⟩
    | cons p ps ihs =>
      intro here dest followed hfuel hs hr hl
      by_cases hempty : p = ""
      · subst hempty
        rw [List.filter_cons_of_neg (by decide)] at hl
        obtain ⟨followed', hf, hr'⟩ := ihs here dest followed hfuel hs hr hl
        exact ⟨followed', by rw [followSteps, if_pos (by simp), hf], hr'⟩
      rw [List.filter_cons_of_pos (by simpa using hempty)] at hl
      cases hl with
      | stay _ hp hl =>
        obtain ⟨followed', hf, hr'⟩ := ihs here dest followed hfuel hs hr hl
        exact ⟨followed', by rw [followSteps, if_pos (by simp [hp]), hf], hr'⟩
      | up _ hp hl =>
        obtain ⟨followed', hf, hr'⟩ := ihs here.dropLast dest followed hfuel hs hr hl
        exact ⟨followed', by rw [followSteps, if_neg (by simp [hp]), if_pos hp, hf], hr'⟩
      | enter hfolder hp hm hnot hl =>
        rw [hd.followSteps_enter hempty hfolder hp hm hnot]
        exact ihs (here ++ [p]) dest followed hfuel hs hr hl
      | @follow _ _ _ k entries _ target hfolder hp hm hl =>
        -- first through the target, then along the rest, each with fewer links
        obtain ⟨path, i, j, hi, hj, hij⟩ := hl.split _ _ rfl
        have hlink : d.LinkLeads (here ++ [p]) path i :=
          ⟨target, raw?_entry hfolder hm, by rw [List.dropLast_concat]; exact hi.target⟩
        obtain ⟨hfresh, hpushed⟩ := hs.push hlink (by omega)
        have hrest := fun followed hr =>
          ih j (by omega) fuel stack ps path dest followed hfuel (hs.mono (by omega)) hr hj
        rw [hd.followSteps_link hempty hfolder hp hm]
        cases hlook : followed.lookup (here ++ [p]) with
        | some known =>
          cases known with
          | none => exact absurd (hr.pending _ hlook) hfresh
          | some path' =>
            obtain ⟨m, hm'⟩ := hr.known _ _ hlook
            rw [← (hlink.deterministic hm').1]
            exact hrest followed hr
        | none =>
          -- the stack with this link has no more links than there are, so that there is fuel
          have hroom : stack.length + 1 ≤ d.top.linkCount :=
            FileNode.length_le_linkCount hpushed.nodup hpushed.link
          obtain ⟨fuel', rfl⟩ : ∃ fuel', fuel = fuel' + 1 := ⟨fuel - 1, by omega⟩
          obtain ⟨followed', hinner, hr'⟩ := ih i (by omega) fuel' ((here ++ [p]) :: stack)
            (SourcePath.splitSlash target.toList) (linkBase here target) path
            ((here ++ [p], none) :: followed) (by rw [List.length_cons]; omega) hpushed
            (hr.enter _) hi.target
          have hentered : d.followLink (fuel' + 1) ((here ++ [p], none) :: followed) here target =
              .ok (.reached path, followed') := hinner
          rw [hentered]
          exact hrest _ (hr'.leave hlink)

/-! ## Paths without links -/

/-- What is there and is no link has a path without links: its own. -/
theorem IsPlain.resolve_of_raw? (hd : d.IsPlain) {path : List Text} {n : FileNode}
    {root : PathRoot} (hn : d.raw? path = some n) (hnot : ∀ target, n ≠ .link target) :
    d.resolve ⟨root, path⟩ = .ok ⟨.single, path⟩ := by
  exact resolve_direct_eq root (direct_of_raw? hd.named hn hnot) (hd.pathError?_of_raw? hn)

/-- A path that leads to a file has a path without links. -/
theorem IsPlain.resolve_of_stat (hd : d.IsPlain) {path : SourcePath} {content : List UInt8}
    (hparts : ∀ p ∈ path.parts, p ≠ "") (hs : d.stat path.parts = .ok (.file content)) :
    ∃ p, d.resolve path = .ok p := by
  obtain ⟨dest, hw, hn⟩ := stat_ok hs
  obtain ⟨n, hl⟩ := leads_of_walk hw
  have hfilter : path.parts.filter (fun p : Text => p != "") = path.parts :=
    List.filter_eq_self.2 fun p hp => by simpa using hparts p hp
  rw [← hfilter] at hl
  obtain ⟨followed, hf, -⟩ := follows hd n d.top.linkCount [] path.parts [] dest []
    (Nat.zero_add _) ⟨List.nodup_nil, nofun, nofun⟩ ⟨nofun, nofun⟩ hl
  exact ⟨_, resolve_of_reached hf (direct_of_raw? hd.named hn nofun) (hd.pathError?_of_raw? hn)⟩

end Disk

end CodeAtlas
