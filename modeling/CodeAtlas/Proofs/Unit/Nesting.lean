import CodeAtlas.Proofs.Unit.Preorder
import Mathlib.Data.List.Forall2
import Mathlib.Tactic.Common

/-!
# Units lie in the source as their nodes lie in the tree

Let each child's span lie inside its parent's, and each child end before the next one begins
(`ParseTree.SpansNest`). Then the nodes in pre-order begin one after the other, and of two nodes
the later one either begins where the earlier one has ended or lies inside it:

    t.preorder.Pairwise fun a b => a.span.Leads b.span                    (pairwise_leads_preorder)

So do the units, since they are at the places of units in pre-order. Two nodes may be alike in all
that they hold. What tells them apart is the way to them from the root, so a `Site` is a place with
its way, and a node is above another one iff its way is the beginning of the other's
(`units_follow_source`).
-/

namespace CodeAtlas

/-! ## Spans -/

namespace Span

/-- The span lies inside another one. -/
structure Within (inner outer : Span) : Prop where
  start : outer.startByte ≤ inner.startByte
  ordered : inner.startByte ≤ inner.endByte
  stop : inner.endByte ≤ outer.endByte

/-- The span begins no later than another one, which either comes after it or lies inside it. -/
structure Leads (s t : Span) : Prop where
  start : s.startByte ≤ t.startByte
  apartOrInside : s.endByte ≤ t.startByte ∨ t.Within s

instance (s t : Span) : Decidable (s.Within t) :=
  decidable_of_iff
    (t.startByte ≤ s.startByte ∧ s.startByte ≤ s.endByte ∧ s.endByte ≤ t.endByte)
    ⟨fun ⟨hstart, hordered, hstop⟩ => ⟨hstart, hordered, hstop⟩,
      fun h => ⟨h.start, h.ordered, h.stop⟩⟩

theorem Within.refl {s t : Span} (h : s.Within t) : s.Within s :=
  ⟨Int.le_refl _, h.ordered, Int.le_refl _⟩

theorem Within.trans {s t u : Span} (hst : s.Within t) (htu : t.Within u) : s.Within u :=
  ⟨Int.le_trans htu.start hst.start, hst.ordered, Int.le_trans hst.stop htu.stop⟩

theorem Within.leads {s t : Span} (h : s.Within t) : t.Leads s := ⟨h.start, Or.inr h⟩

/-- What lies inside a span comes before what lies inside a later one. -/
theorem leads_of_apart {s t s' t' : Span} (hs : s'.Within s) (ht : t'.Within t)
    (hst : s.endByte ≤ t.startByte) : s'.Leads t' := by
  have hapart : s'.endByte ≤ t'.startByte :=
    Int.le_trans hs.stop (Int.le_trans hst ht.start)
  exact ⟨Int.le_trans hs.ordered hapart, Or.inl hapart⟩

end Span

namespace ParseTree

/-- The children of a node lie inside it, one after the other. -/
structure SpansNest (t : ParseTree) : Prop where
  inside : ∀ node ∈ t.preorder, ∀ child ∈ node.children, child.span.Within node.span
  apart : ∀ node ∈ t.preorder,
    node.children.Pairwise fun a b => a.span.endByte ≤ b.span.startByte

instance (t : ParseTree) : Decidable t.SpansNest :=
  decidable_of_iff
    ((∀ node ∈ t.preorder, ∀ child ∈ node.children, child.span.Within node.span) ∧
      ∀ node ∈ t.preorder,
        node.children.Pairwise fun a b => a.span.endByte ≤ b.span.startByte)
    ⟨fun ⟨hinside, hapart⟩ => ⟨hinside, hapart⟩, fun h => ⟨h.inside, h.apart⟩⟩

theorem SpansNest.child {t c : ParseTree} (h : t.SpansNest) (hc : c ∈ t.children) : c.SpansNest :=
  ⟨fun node hn => h.inside node (mem_preorder_of_child hc hn),
    fun node hn => h.apart node (mem_preorder_of_child hc hn)⟩

theorem exists_of_mem_preorders {ts : List ParseTree} {n : ParseTree} (h : n ∈ preorders ts) :
    ∃ t ∈ ts, n ∈ t.preorder := by
  induction ts with
  | nil => cases h
  | cons t ts ih =>
    rw [preorders, List.mem_append] at h
    rcases h with h | h
    · exact ⟨t, List.mem_cons_self, h⟩
    · obtain ⟨u, hu, hn⟩ := ih h
      exact ⟨u, List.mem_cons_of_mem _ hu, hn⟩

mutual

/-- A node lies inside all nodes above it. -/
theorem within_of_mem_preorder {outer : Span} :
    ∀ t : ParseTree, t.SpansNest → t.span.Within outer → ∀ n ∈ t.preorder, n.span.Within outer
  | .node kind field span children, h, ht, n, hn => by
    rw [preorder, List.mem_cons] at hn
    rcases hn with rfl | hn
    · exact ht
    · refine within_of_mem_preorders children (fun c hc => h.child hc) (fun c hc => ?_) n hn
      exact (h.inside _ (mem_preorder_self _) c hc).trans ht

theorem within_of_mem_preorders {outer : Span} :
    ∀ ts : List ParseTree, (∀ t ∈ ts, t.SpansNest) → (∀ t ∈ ts, t.span.Within outer) →
      ∀ n ∈ preorders ts, n.span.Within outer
  | [], _, _, n, hn => by cases hn
  | t :: ts, h, hts, n, hn => by
    rw [preorders, List.mem_append] at hn
    rcases hn with hn | hn
    · exact within_of_mem_preorder t (h t List.mem_cons_self) (hts t List.mem_cons_self) n hn
    · exact within_of_mem_preorders ts (fun u hu => h u (List.mem_cons_of_mem _ hu))
        (fun u hu => hts u (List.mem_cons_of_mem _ hu)) n hn

end

mutual

/-- Nodes in pre-order begin one after the other, the later ones behind the earlier ones or inside. -/
theorem pairwise_leads_preorder :
    ∀ t : ParseTree, t.SpansNest → t.preorder.Pairwise fun a b => a.span.Leads b.span
  | .node kind field span children, h => by
    have hinside := h.inside _ (mem_preorder_self _)
    rw [preorder, List.pairwise_cons]
    refine ⟨fun n hn => ?_, ?_⟩
    · exact (within_of_mem_preorders children (fun c hc => h.child hc) hinside n hn).leads
    · exact pairwise_leads_preorders children (fun c hc => h.child hc)
        (fun c hc => (hinside c hc).refl) (h.apart _ (mem_preorder_self _))

theorem pairwise_leads_preorders :
    ∀ ts : List ParseTree, (∀ t ∈ ts, t.SpansNest) → (∀ t ∈ ts, t.span.Within t.span) →
      (ts.Pairwise fun a b => a.span.endByte ≤ b.span.startByte) →
      (preorders ts).Pairwise fun a b => a.span.Leads b.span
  | [], _, _, _ => .nil
  | t :: ts, h, hordered, hapart => by
    rw [List.pairwise_cons] at hapart
    rw [preorders, List.pairwise_append]
    refine ⟨pairwise_leads_preorder t (h t List.mem_cons_self), ?_, fun a ha b hb => ?_⟩
    · exact pairwise_leads_preorders ts (fun u hu => h u (List.mem_cons_of_mem _ hu))
        (fun u hu => hordered u (List.mem_cons_of_mem _ hu)) hapart.2
    · obtain ⟨u, hu, hb⟩ := exists_of_mem_preorders hb
      have hu' : u ∈ t :: ts := List.mem_cons_of_mem _ hu
      have ht' : t ∈ t :: ts := List.mem_cons_self
      exact Span.leads_of_apart (within_of_mem_preorder t (h t ht') (hordered t ht') a ha)
        (within_of_mem_preorder u (h u hu') (hordered u hu') b hb) (hapart.1 u hu)

end

end ParseTree

/-! ## Ways -/

/-- A node of a tree with the way to it from the root: the number of the child to take at each node.
Nodes may be alike in all else. -/
structure Site where
  way : List Nat
  place : Place

/-- The way to the other node goes on from this one. -/
def Site.IsAbove (s s' : Site) : Prop := ∃ n rest, s'.way = s.way ++ n :: rest

namespace ParseTree

/-- The place to which a way leads from a tree that hangs below other nodes. -/
def placeAt? (above : List ParseTree) (t : ParseTree) : List Nat → Option Place
  | [] => some ⟨above, t⟩
  | n :: way => t.children[n]?.bind fun c => c.placeAt? (t :: above) way

mutual

/-- The places of a tree that hangs below other nodes, in pre-order, each with the way to it. -/
def sites (above : List ParseTree) (way : List Nat) : ParseTree → List Site
  | .node kind field span children =>
    let t : ParseTree := .node kind field span children
    ⟨way, above, t⟩ :: sitesList (t :: above) way 0 children

/-- The same for the children of a node from number `n` on. -/
def sitesList (above : List ParseTree) (way : List Nat) (n : Nat) : List ParseTree → List Site
  | [] => []
  | t :: ts => t.sites above (way ++ [n]) ++ sitesList above way (n + 1) ts

end

mutual

theorem places_sites (above : List ParseTree) (way : List Nat) :
    ∀ t : ParseTree, (t.sites above way).map (·.place) = t.places above
  | .node kind field span children => by
    rw [sites, places, List.map_cons, places_sitesList]

theorem places_sitesList (above : List ParseTree) (way : List Nat) (n : Nat) :
    ∀ ts : List ParseTree, (sitesList above way n ts).map (·.place) = placesList above ts
  | [] => rfl
  | t :: ts => by
    rw [sitesList, placesList, List.map_append, places_sites, places_sitesList]

end

mutual

/-- The way of a site leads to its place. -/
theorem placeAt?_of_mem_sites {above : List ParseTree} {way : List Nat} {s : Site} :
    ∀ t : ParseTree, s ∈ t.sites above way →
      ∃ rest, s.way = way ++ rest ∧ t.placeAt? above rest = some s.place
  | .node kind field span children, h => by
    rw [sites, List.mem_cons] at h
    rcases h with rfl | h
    · exact ⟨[], (List.append_nil way).symm, rfl⟩
    · obtain ⟨k, c, rest, hway, hc, hplace⟩ := placeAt?_of_mem_sitesList children h
      rw [Nat.zero_add] at hway
      refine ⟨k :: rest, hway, ?_⟩
      rw [placeAt?, ParseTree.children, hc, Option.bind_some, hplace]

theorem placeAt?_of_mem_sitesList {above : List ParseTree} {way : List Nat} {n : Nat} {s : Site} :
    ∀ ts : List ParseTree, s ∈ sitesList above way n ts →
      ∃ k c rest, s.way = way ++ (n + k) :: rest ∧ ts[k]? = some c ∧
        c.placeAt? above rest = some s.place
  | [], h => by cases h
  | t :: ts, h => by
    rw [sitesList, List.mem_append] at h
    rcases h with h | h
    · obtain ⟨rest, hway, hplace⟩ := placeAt?_of_mem_sites t h
      refine ⟨0, t, rest, ?_, rfl, hplace⟩
      rw [hway, List.append_assoc, List.singleton_append, Nat.add_zero]
    · obtain ⟨k, c, rest, hway, hc, hplace⟩ := placeAt?_of_mem_sitesList ts h
      refine ⟨k + 1, c, rest, ?_, by rw [List.getElem?_cons_succ, hc], hplace⟩
      rw [hway, Nat.add_right_comm, Nat.add_assoc]

end

theorem lt_append_cons (way : List Nat) (n : Nat) (rest : List Nat) : way < way ++ n :: rest := by
  have h : way ++ [] < way ++ n :: rest := List.append_left_lt (List.nil_lt_cons n rest)
  rwa [List.append_nil] at h

mutual

/-- Pre-order is the lexical order of ways. -/
theorem pairwise_way_sites (above : List ParseTree) (way : List Nat) :
    ∀ t : ParseTree, (t.sites above way).Pairwise fun s s' => s.way < s'.way
  | .node kind field span children => by
    rw [sites, List.pairwise_cons]
    refine ⟨fun s hs => ?_, pairwise_way_sitesList _ way 0 children⟩
    obtain ⟨k, c, rest, hway, -⟩ := placeAt?_of_mem_sitesList children hs
    rw [hway]
    exact lt_append_cons way _ rest

theorem pairwise_way_sitesList (above : List ParseTree) (way : List Nat) (n : Nat) :
    ∀ ts : List ParseTree, (sitesList above way n ts).Pairwise fun s s' => s.way < s'.way
  | [] => .nil
  | t :: ts => by
    rw [sitesList, List.pairwise_append]
    refine ⟨pairwise_way_sites above _ t, pairwise_way_sitesList above way (n + 1) ts,
      fun s hs s' hs' => ?_⟩
    obtain ⟨rest, hway, -⟩ := placeAt?_of_mem_sites t hs
    obtain ⟨k, c, rest', hway', -⟩ := placeAt?_of_mem_sitesList ts hs'
    rw [hway, hway', List.append_assoc, List.singleton_append]
    refine List.append_left_lt (List.cons_lt_cons_iff.2 (Or.inl ?_))
    omega

end

/-- Going on from where a way leads. -/
theorem placeAt?_append (above : List ParseTree) (t : ParseTree) (way rest : List Nat) :
    t.placeAt? above (way ++ rest) =
      (t.placeAt? above way).bind fun p => p.node.placeAt? p.above rest := by
  induction way generalizing above t with
  | nil => rfl
  | cons n way ih =>
    rw [List.cons_append, placeAt?, placeAt?]
    cases t.children[n]? with
    | none => rfl
    | some c => exact ih (t :: above) c

/-- What a way passes stays above. -/
theorem above_of_placeAt? {above : List ParseTree} {t : ParseTree} {way : List Nat} {p : Place}
    (h : t.placeAt? above way = some p) : ∃ between, p.above = between ++ above := by
  induction way generalizing above t with
  | nil =>
    cases h
    exact ⟨[], rfl⟩
  | cons n way ih =>
    rw [placeAt?, Option.bind_eq_some_iff] at h
    obtain ⟨c, -, h⟩ := h
    obtain ⟨between, hb⟩ := ih h
    exact ⟨between ++ [t], by rw [hb, List.append_assoc, List.singleton_append]⟩

theorem above_of_isAbove {t : ParseTree} {s s' : Site} (hs : t.placeAt? [] s.way = some s.place)
    (hs' : t.placeAt? [] s'.way = some s'.place) (h : s.IsAbove s') :
    ∃ between, s'.place.above = between ++ s.place.node :: s.place.above := by
  obtain ⟨n, rest, hway⟩ := h
  rw [hway, placeAt?_append, hs, Option.bind_some, placeAt?, Option.bind_eq_some_iff] at hs'
  obtain ⟨c, -, hs'⟩ := hs'
  exact above_of_placeAt? hs'

/-- The sites of units, in pre-order. -/
def unitSites (language : Language) (t : ParseTree) : List Site :=
  (t.sites [] []).filter (·.place.IsUnit language)

theorem places_unitSites (language : Language) (t : ParseTree) :
    (t.unitSites language).map (·.place) = t.unitPlaces language := by
  rw [unitPlaces, ← places_sites [] [] t, List.filter_map]
  rfl

theorem placeAt?_of_mem_unitSites {language : Language} {t : ParseTree} {s : Site}
    (h : s ∈ t.unitSites language) :
    t.placeAt? [] s.way = some s.place ∧ s.place.IsUnit language := by
  obtain ⟨hmem, hunit⟩ := List.mem_filter.1 h
  obtain ⟨rest, hway, hplace⟩ := placeAt?_of_mem_sites t hmem
  rw [List.nil_append] at hway
  exact ⟨hway ▸ hplace, of_decide_eq_true hunit⟩

end ParseTree

/-! ## Symbol paths -/

theorem Text.intercalate_append {sep : Text} {xs ys : List Text} (hx : xs ≠ [])
    (hy : ys ≠ []) :
    sep.intercalate (xs ++ ys) = sep.intercalate xs ++ sep ++ sep.intercalate ys := by
  rw [← Text.toList_inj]
  simp only [Text.toList_append, Text.toList_intercalate, List.map_append]
  induction xs with
  | nil => exact absurd rfl hx
  | cons x xs ih =>
    cases xs with
    | nil => simp [List.intercalate_cons_of_ne_nil, hy]
    | cons x' xs =>
      have hne : (x' :: xs).map Text.toList ++ ys.map Text.toList ≠ [] := by simp
      rw [List.map_cons, List.cons_append, List.intercalate_cons_of_ne_nil hne,
        List.intercalate_cons_of_ne_nil (by simp), ih (by simp)]
      simp only [List.append_assoc]

namespace Place

variable (language : Language) (source : List UInt8)

/-- The units further above are named first. -/
theorem exists_scope_append (between above : List ParseTree) :
    ∃ more, scope language source (between ++ above) = scope language source above ++ more := by
  induction between with
  | nil => exact ⟨[], (List.append_nil _).symm⟩
  | cons t between ih =>
    obtain ⟨more, hmore⟩ := ih
    rw [List.cons_append, scope_cons, hmore, List.append_assoc]
    exact ⟨_, rfl⟩

/-- The symbol path of a unit is followed by a point where it begins the path of a node below. -/
theorem exists_symbolPath_append {p q : Place} (hp : p.IsUnit language)
    {between : List ParseTree} (hq : q.above = between ++ p.node :: p.above) :
    ∃ rest, q.symbolPath language source = p.symbolPath language source ++ "." ++ rest := by
  obtain ⟨more, hmore⟩ := exists_scope_append language source between (p.node :: p.above)
  rw [scope_cons, if_pos hp] at hmore
  refine ⟨Text.intercalate "." (more ++ [q.token language source]), ?_⟩
  unfold symbolPath
  rw [hq, hmore, List.append_assoc, Text.intercalate_append (by simp) (by simp)]

end Place

/-! ## Units -/

namespace Extract

/-- The spans nest in whatever tree the call has parsed. -/
def Call.SpansNest (c : Call) : Prop :=
  ∀ language parse, Language.ofTag? c.languages c.tag = some language →
    c.grammars language.grammar = .ok parse → (parse c.bytes).root.SpansNest

/-- A unit is made at each site of a unit, in pre-order. -/
theorem forall₂_unitSites {o : Origin} {language : Language} {t : ParseTree}
    {units : List CodeUnit}
    (h : number o 0 [] (walk language o.source [⟨none, t, []⟩]) = .ok units) :
    List.Forall₂ (fun s u => IsUnitOf o.source (s.place.found language o.source) u)
        (t.unitSites language) units ∧
      units.map (·.ordinal) = List.range units.length := by
  obtain ⟨hunits, hordinals⟩ := forall₂_number h
  rw [walk_eq_unitPlaces, ← ParseTree.places_unitSites, List.map_map,
    List.forall₂_map_left_iff] at hunits
  rw [hordinals, List.range_eq_range']
  exact ⟨hunits, rfl⟩

theorem pairwise_leads_units {source : List UInt8} {language : Language} {t : ParseTree}
    {units : List CodeUnit} (hspans : t.SpansNest)
    (h : List.Forall₂ (fun s u => IsUnitOf source (s.place.found language source) u)
      (t.unitSites language) units) :
    units.Pairwise fun u v => u.span.Leads v.span := by
  have heq : (t.unitSites language).map (·.place.node.span) = units.map (·.span) := by
    refine List.forall₂_eq_eq_eq ▸ ?_
    rw [List.forall₂_map_left_iff, List.forall₂_map_right_iff]
    exact h.imp fun s u hu => hu.span.symm
  have hplaces : ((t.places []).map (·.node)).Pairwise fun a b => a.span.Leads b.span := by
    rw [ParseTree.nodes_places]
    exact ParseTree.pairwise_leads_preorder t hspans
  have hsites : (t.unitPlaces language).Pairwise fun p q => p.node.span.Leads q.node.span :=
    (List.pairwise_map.1 hplaces).sublist List.filter_sublist
  rw [← ParseTree.places_unitSites, List.pairwise_map] at hsites
  have hleads : ((t.unitSites language).map (·.place.node.span)).Pairwise Span.Leads :=
    List.pairwise_map.2 hsites
  rw [heq] at hleads
  exact List.pairwise_map.1 hleads

theorem pairwise_way_unitSites (language : Language) (t : ParseTree) :
    (t.unitSites language).Pairwise fun s s' => s.way < s'.way :=
  (ParseTree.pairwise_way_sites [] [] t).sublist List.filter_sublist

/-- A unit above another one has the smaller number. -/
theorem ordinal_lt_of_isAbove {language : Language} {t : ParseTree} {units : List CodeUnit}
    (hnumbers : units.Pairwise fun u v => u.ordinal < v.ordinal)
    {su sv : Site × CodeUnit} (hu : su ∈ (t.unitSites language).zip units)
    (hv : sv ∈ (t.unitSites language).zip units) (h : su.1.IsAbove sv.1) :
    su.2.ordinal < sv.2.ordinal := by
  have hways := List.pairwise_iff_getElem.1 (pairwise_way_unitSites language t)
  obtain ⟨i, hi, rfl⟩ := List.getElem_of_mem hu
  obtain ⟨j, hj, rfl⟩ := List.getElem_of_mem hv
  rw [List.length_zip, Nat.lt_min] at hi hj
  rw [List.getElem_zip, List.getElem_zip] at h ⊢
  have hway : (t.unitSites language)[i].way < (t.unitSites language)[j].way := by
    obtain ⟨n, rest, hway⟩ := h
    rw [hway]
    exact ParseTree.lt_append_cons _ n rest
  -- the ways rise along the list, so the site with the smaller way stands first
  have hij : i < j := by
    rcases Nat.lt_trichotomy i j with hij | rfl | hji
    · exact hij
    · exact absurd hway (List.lt_irrefl _)
    · exact absurd hway (List.lt_asymm (hways j i hj.1 hi.1 hji))
  exact List.pairwise_iff_getElem.1 hnumbers i j hi.2 hj.2 hij

/-- In trees whose spans nest, units begin one after the other in the order of their numbers, and of
two units the later one lies behind the earlier one or inside it. Where the node of a unit is above
that of another one, the unit has the smaller number, and its symbol path with a point begins the
other's. -/
theorem units_follow_source {c : Call} (hspans : c.SpansNest) {units : List CodeUnit}
    (h : c.result = .ok units) :
    (units.Pairwise fun u v => u.ordinal < v.ordinal ∧ u.span.Leads v.span) ∧
      ((c.bytes = [] ∧ units = []) ∨
        ∃ language parse, Language.ofTag? c.languages c.tag = some language ∧
          c.grammars language.grammar = .ok parse ∧
          (((parse c.bytes).root.unitSites language).map (·.way)).Nodup ∧
          List.Forall₂ (fun s u => (parse c.bytes).root.placeAt? [] s.way = some s.place ∧
              s.place.IsUnit language ∧ u.span = s.place.node.span ∧
              u.symbolPath = s.place.symbolPath language c.bytes)
            ((parse c.bytes).root.unitSites language) units ∧
          ∀ su ∈ ((parse c.bytes).root.unitSites language).zip units,
            ∀ sv ∈ ((parse c.bytes).root.unitSites language).zip units, su.1.IsAbove sv.1 →
              su.2.ordinal < sv.2.ordinal ∧
                ∃ rest, sv.2.symbolPath = su.2.symbolPath ++ "." ++ rest) := by
  rcases Call.result_ok h with ⟨hempty, rfl⟩ | ⟨language, parse, hlanguage, hparse, hnumber⟩
  · exact ⟨.nil, Or.inl ⟨hempty, rfl⟩⟩
  · obtain ⟨hunits, hordinals⟩ := forall₂_unitSites hnumber
    have hnumbers : units.Pairwise fun u v => u.ordinal < v.ordinal := by
      have hrange : (units.map (·.ordinal)).Pairwise (· < ·) := hordinals ▸ List.pairwise_lt_range
      exact List.pairwise_map.1 hrange
    have hleads := pairwise_leads_units (hspans language parse hlanguage hparse) hunits
    have hdistinct : (((parse c.bytes).root.unitSites language).map (·.way)).Nodup := by
      refine List.pairwise_map.2 ((pairwise_way_unitSites language _).imp fun {s s'} hlt heq => ?_)
      rw [heq] at hlt
      exact List.lt_irrefl _ hlt
    have hsites : ∀ s ∈ (parse c.bytes).root.unitSites language,
        (parse c.bytes).root.placeAt? [] s.way = some s.place ∧ s.place.IsUnit language :=
      fun s hs => ParseTree.placeAt?_of_mem_unitSites hs
    have hmade := (List.forall₂_and_left _ _).2 ⟨hsites, hunits⟩
    refine ⟨hnumbers.and hleads, Or.inr ⟨language, parse, hlanguage, hparse, hdistinct, ?_,
      fun su hu sv hv habove => ⟨?_, ?_⟩⟩⟩
    · exact hmade.imp fun s u ⟨⟨hplace, hunit⟩, hu⟩ => ⟨hplace, hunit, hu.span, hu.symbolPath⟩
    · exact ordinal_lt_of_isAbove hnumbers hu hv habove
    · obtain ⟨⟨hplace, hunit⟩, hmadeAbove⟩ := (List.forall₂_iff_zip.1 hmade).2 hu
      obtain ⟨⟨hplace', -⟩, hmadeBelow⟩ := (List.forall₂_iff_zip.1 hmade).2 hv
      obtain ⟨between, hbetween⟩ := ParseTree.above_of_isAbove hplace hplace' habove
      rw [hmadeAbove.symbolPath, hmadeBelow.symbolPath]
      exact Place.exists_symbolPath_append language c.bytes hunit hbetween

namespace Sample

/-- A class without width and a function in it. -/
def emptyClass : ParseTree :=
  .node "class_definition" none ⟨11, 11, 0, 0⟩ [
    .node "identifier" (some "name") ⟨11, 11, 0, 0⟩ [],
    .node "function_definition" none ⟨11, 11, 0, 0⟩ []]

/-- A class with a function, and behind it two classes that are alike. -/
def twinTree : ParseTree :=
  .node "module" none ⟨0, 11, 0, 0⟩ [
    .node "class_definition" none ⟨0, 11, 0, 0⟩ [
      .node "identifier" (some "name") ⟨6, 7, 0, 0⟩ [],
      .node "function_definition" (some "body") ⟨8, 11, 0, 0⟩ []],
    emptyClass,
    emptyClass]

def twins : Call where
  languages := Language.catalog
  grammars := fun _ => .ok fun _ => ⟨twinTree, false⟩
  settings := ⟨.structural, true⟩
  content := .inl "class C:def"
  tag := "python"
  filePath := "a.py"

end Sample

/-- The classes that are alike stand at ways of their own, each with its function below it. -/
theorem twins_follow_source :
    ∃ units language, Sample.twins.result = .ok units ∧
      (Sample.twinTree.unitSites language).map (·.way) = [[0], [0, 1], [1], [1, 1], [2], [2, 1]] ∧
      units.map (·.symbolPath) =
        (["C", "C.unknown_python_func", "", ".unknown_python_func", "",
          ".unknown_python_func"] : List Text) ∧
      (units.Pairwise fun u v => u.ordinal < v.ordinal ∧ u.span.Leads v.span) ∧
      ∀ su ∈ (Sample.twinTree.unitSites language).zip units,
        ∀ sv ∈ (Sample.twinTree.unitSites language).zip units, su.1.IsAbove sv.1 →
          su.2.ordinal < sv.2.ordinal ∧
            ∃ rest, sv.2.symbolPath = su.2.symbolPath ++ "." ++ rest := by
  have hspans : Sample.twins.SpansNest := by
    intro language parse _ hparse
    cases hparse
    show Sample.twinTree.SpansNest
    decide +kernel
  have hpaths : Sample.twins.result.toOption.map (·.map (·.symbolPath)) =
      some (["C", "C.unknown_python_func", "", ".unknown_python_func", "",
        ".unknown_python_func"] : List Text) := by decide +kernel
  cases h : Sample.twins.result with
  | error e =>
    rw [h] at hpaths
    cases hpaths
  | ok units =>
    rw [h] at hpaths
    obtain ⟨hleads, ⟨hempty, -⟩ | ⟨language, parse, hlanguage, hparse, -, -, habove⟩⟩ :=
      units_follow_source hspans h
    · cases hempty
    · cases hparse
      cases hlanguage
      exact ⟨units, _, rfl, by decide +kernel, Option.some.inj hpaths, hleads, habove⟩

end Extract

end CodeAtlas
