import CodeAtlas.Proofs.Work
import CodeAtlas.Store.Batch
import Mathlib.Data.List.Nodup

/-!
# Batches hold whole files

A group has all elements of its key in their order (`Grouped`), and batches are runs of whole
groups (`take_pack`). So of the items of one file, the first `n` batches hold all or none:

    batches? size items = some batches →
      itemsOf key (batches.take n).flatten = [] ∨
      itemsOf key (batches.take n).flatten = itemsOf key items        (itemsOf_take_batches)
-/

namespace CodeAtlas.Batch

section
variable {κ α : Type} [DecidableEq κ]

/-! ## Groups -/

/-- Groups of distinct keys in the order in which these come up, each with all elements of its key
in order. -/
structure Grouped (keyed : List (κ × α)) (groups : List (κ × List α)) : Prop where
  nodup : (groups.map (·.1)).Nodup
  elements : ∀ g ∈ groups, g.2 = (keyed.filter (·.1 = g.1)).map (·.2)
  covers : ∀ ka ∈ keyed, ka.1 ∈ groups.map (·.1)
  known : ∀ k ∈ groups.map (·.1), k ∈ keyed.map (·.1)
  order : (groups.map (·.1)).Pairwise fun k l =>
    (keyed.map (·.1)).idxOf k < (keyed.map (·.1)).idxOf l

theorem keys_addTo (groups : List (κ × List α)) (k : κ) (a : α) :
    (addTo groups k a).map (·.1) =
      if k ∈ groups.map (·.1) then groups.map (·.1) else groups.map (·.1) ++ [k] := by
  induction groups with
  | nil => simp [addTo]
  | cons g rest ih =>
    obtain ⟨k', as⟩ := g
    unfold addTo
    by_cases hk : k' = k
    · simp [hk]
    · rw [if_neg hk, List.map_cons, ih]
      have hne : ¬ k = k' := fun h => hk h.symm
      by_cases hm : k ∈ rest.map (·.1)
      · simp only [List.map_cons, List.mem_cons, hm, or_true, if_true]
      · simp only [List.map_cons, List.mem_cons, hm, hne, or_false, if_false, List.cons_append]

/-- The groups after adding an element: one of its key got longer or is new. -/
theorem mem_addTo {groups : List (κ × List α)} (hn : (groups.map (·.1)).Nodup) {k : κ} {a : α}
    {g : κ × List α} (h : g ∈ addTo groups k a) :
    (g.1 ≠ k ∧ g ∈ groups) ∨ (∃ as, (k, as) ∈ groups ∧ g = (k, as ++ [a])) ∨
      (k ∉ groups.map (·.1) ∧ g = (k, [a])) := by
  induction groups with
  | nil =>
    right; right
    simpa [addTo] using h
  | cons g' rest ih =>
    obtain ⟨k', as⟩ := g'
    rw [List.map_cons, List.nodup_cons] at hn
    unfold addTo at h
    by_cases hk : k' = k
    · rw [if_pos hk] at h
      subst hk
      rcases List.mem_cons.1 h with rfl | h
      · exact Or.inr (Or.inl ⟨as, List.mem_cons_self, rfl⟩)
      · left
        refine ⟨fun he => hn.1 ?_, List.mem_cons_of_mem _ h⟩
        exact List.mem_map.2 ⟨g, h, he⟩
    · rw [if_neg hk] at h
      rcases List.mem_cons.1 h with rfl | h
      · exact Or.inl ⟨hk, List.mem_cons_self⟩
      · rcases ih hn.2 h with ⟨h1, h2⟩ | ⟨bs, h1, h2⟩ | ⟨h1, h2⟩
        · exact Or.inl ⟨h1, List.mem_cons_of_mem _ h2⟩
        · exact Or.inr (Or.inl ⟨bs, List.mem_cons_of_mem _ h1, h2⟩)
        · refine Or.inr (Or.inr ⟨?_, h2⟩)
          intro hm
          rcases List.mem_cons.1 hm with hm | hm
          · exact hk hm.symm
          · exact h1 hm

/-- One more element keeps the groups right. -/
theorem Grouped.addTo {keyed : List (κ × α)} {groups : List (κ × List α)}
    (h : Grouped keyed groups) (k : κ) (a : α) :
    Grouped (keyed ++ [(k, a)]) (addTo groups k a) := by
  refine ⟨?_, ?_, ?_, ?_, ?_⟩
  · rw [keys_addTo]
    split
    · exact h.nodup
    · next hm =>
      rw [List.nodup_append]
      refine ⟨h.nodup, List.nodup_singleton _, ?_⟩
      intro x hx y hy hxy
      rw [List.mem_singleton] at hy
      subst hy hxy
      exact hm hx
  · intro g hg
    rw [List.filter_append, List.map_append]
    rcases mem_addTo h.nodup hg with ⟨hne, hg⟩ | ⟨as, has, rfl⟩ | ⟨hnew, rfl⟩
    · rw [← h.elements g hg]
      simp [Ne.symm hne]
    · rw [← h.elements _ has]
      simp
    · have hnone : keyed.filter (·.1 = k) = [] := by
        rw [List.filter_eq_nil_iff]
        intro ka hka he
        exact hnew (by simpa [of_decide_eq_true he] using h.covers ka hka)
      simp [hnone]
  · intro ka hka
    rw [keys_addTo]
    rcases List.mem_append.1 hka with hka | hka
    · split
      · exact h.covers ka hka
      · exact List.mem_append_left _ (h.covers ka hka)
    · rw [List.mem_singleton] at hka
      subst hka
      split
      · assumption
      · simp
  · intro l hl
    rw [List.map_append]
    rw [keys_addTo] at hl
    split at hl
    · exact List.mem_append_left _ (h.known l hl)
    · rcases List.mem_append.1 hl with hl | hl
      · exact List.mem_append_left _ (h.known l hl)
      · exact List.mem_append_right _ hl
  · -- a key that has come up keeps its place, a new one comes after all others
    have hplace : ∀ l ∈ groups.map (·.1), ((keyed ++ [(k, a)]).map (·.1)).idxOf l =
        (keyed.map (·.1)).idxOf l := by
      intro l hl
      rw [List.map_append, List.idxOf_append_of_mem (h.known l hl)]
    have hold : (groups.map (·.1)).Pairwise fun l m =>
        ((keyed ++ [(k, a)]).map (·.1)).idxOf l < ((keyed ++ [(k, a)]).map (·.1)).idxOf m :=
      h.order.imp_of_mem fun hl hm hlm => by rwa [hplace _ hl, hplace _ hm]
    rw [keys_addTo]
    split
    · exact hold
    · next hnew =>
      refine List.pairwise_append.2 ⟨hold, List.pairwise_singleton _ _, fun l hl m hm => ?_⟩
      have hk : k ∉ keyed.map (·.1) := by
        intro hk
        obtain ⟨ka, hka, rfl⟩ := List.mem_map.1 hk
        exact hnew (h.covers ka hka)
      rw [List.mem_singleton.1 hm, hplace l hl, List.map_append, List.idxOf_append_of_notMem hk]
      exact Nat.lt_add_right _ (List.idxOf_lt_length_iff.2 (h.known l hl))

theorem grouped_group (keyed : List (κ × α)) : Grouped keyed (group keyed) := by
  have run : ∀ (rest before : List (κ × α)) (groups : List (κ × List α)), Grouped before groups →
      Grouped (before ++ rest) (rest.foldl (fun gs ka => Batch.addTo gs ka.1 ka.2) groups) := by
    intro rest
    induction rest with
    | nil =>
      intro before groups h
      simpa using h
    | cons ka rest ih =>
      intro before groups h
      rw [List.append_cons]
      exact ih _ _ (h.addTo ka.1 ka.2)
  exact run keyed [] [] ⟨List.nodup_nil, by simp, by simp, by simp, .nil⟩

/-! ## Packing -/

/-- The first batches are the first groups. -/
theorem take_pack (size n : Nat) (groups : List (List α)) :
    ∃ j, ((pack size [] groups).take n).flatten = (groups.take j).flatten := by
  have run : ∀ (gs : List (List α)) (batch : List α) (n : Nat),
      ∃ j, ((pack size batch gs).take (n + 1)).flatten = batch ++ (gs.take j).flatten := by
    intro gs
    induction gs with
    | nil =>
      intro batch n
      refine ⟨0, ?_⟩
      unfold pack
      split
      · simp_all
      · simp
    | cons g gs ih =>
      intro batch n
      unfold pack
      split
      · cases n with
        | zero => exact ⟨0, by simp⟩
        | succ m =>
          obtain ⟨j, hj⟩ := ih g m
          exact ⟨j + 1, by simp [hj]⟩
      · obtain ⟨j, hj⟩ := ih (batch ++ g) n
        exact ⟨j + 1, by simp [hj]⟩
  cases n with
  | zero => exact ⟨0, by simp⟩
  | succ m =>
    obtain ⟨j, hj⟩ := run groups [] m
    exact ⟨j, by simpa using hj⟩

end

/-! ## Items -/

/-- The place at which a group first comes up among items. -/
def place (items : List IndexItem) (key : Option GroupKey) : Nat :=
  (items.map groupKey?).idxOf key

/-- The items of one group, in order. -/
def itemsOf (key : GroupKey) (items : List IndexItem) : List IndexItem :=
  items.filter (groupKey? · = some key)

/-- Items with their groups, as they are grouped. -/
theorem keyed_items {items : List IndexItem} {keyed : List (GroupKey × IndexItem)}
    (h : items.mapM (fun item => (groupKey? item).map (·, item)) = some keyed) :
    keyed.map (·.2) = items ∧ ∀ ka ∈ keyed, groupKey? ka.2 = some ka.1 := by
  have hone : ∀ item ka, (groupKey? item).map (·, item) = some ka →
      ka.2 = item ∧ groupKey? item = some ka.1 := by
    intro item ka hka
    obtain ⟨key, hkey, rfl⟩ := Option.map_eq_some_iff.1 hka
    exact ⟨rfl, hkey⟩
  refine ⟨map_of_mapM_some (fun item ka hka => (hone item ka hka).1) h, fun ka hka => ?_⟩
  have hmem : some ka ∈ items.map fun item => (groupKey? item).map (·, item) := by
    rw [mapM_some_iff.1 h]
    exact List.mem_map_of_mem hka
  obtain ⟨item, -, hitem⟩ := List.mem_map.1 hmem
  obtain ⟨heq, hkey⟩ := hone item ka hitem
  rwa [heq]

/-- Groups of items with the key told apart. -/
theorem itemsOf_eq_filter {items : List IndexItem} {keyed : List (GroupKey × IndexItem)}
    (h : items.mapM (fun item => (groupKey? item).map (·, item)) = some keyed) (key : GroupKey) :
    (keyed.filter (·.1 = key)).map (·.2) = itemsOf key items := by
  obtain ⟨h1, h2⟩ := keyed_items h
  rw [← h1, itemsOf, List.filter_map]
  congr 1
  apply List.filter_congr
  intro ka hka
  simp [h2 ka hka]

theorem idxOf_keyed {items : List IndexItem} {keyed : List (GroupKey × IndexItem)}
    (h : items.mapM (fun item => (groupKey? item).map (·, item)) = some keyed) (key : GroupKey) :
    (keyed.map (·.1)).idxOf key = place items (some key) := by
  obtain ⟨h1, h2⟩ := keyed_items h
  have hkeys : items.map groupKey? = (keyed.map (·.1)).map some := by
    rw [← h1, List.map_map, List.map_map]
    exact List.map_congr_left h2
  rw [place, hkeys]
  exact (List.findIdx_map (keyed.map (·.1)) some (· == some key)).symm

/-- A run of whole groups holds all or none of the items of a key. -/
theorem itemsOf_take_groups {items : List IndexItem} {groups : List (GroupKey × List IndexItem)}
    (hn : (groups.map (·.1)).Nodup) (he : ∀ g ∈ groups, g.2 = itemsOf g.1 items) (key : GroupKey) :
    itemsOf key (groups.map (·.2)).flatten =
      if key ∈ groups.map (·.1) then itemsOf key items else [] := by
  induction groups with
  | nil => rfl
  | cons g rest ih =>
    rw [List.map_cons, List.nodup_cons] at hn
    have hrest := ih hn.2 fun g' hg' => he g' (List.mem_cons_of_mem _ hg')
    have hg : itemsOf key g.2 = if g.1 = key then itemsOf key items else [] := by
      rw [he g List.mem_cons_self]
      unfold itemsOf
      rw [List.filter_filter]
      split
      · next hk => simp [hk]
      · next hk =>
        rw [List.filter_eq_nil_iff]
        intro item _ hi
        simp only [Bool.and_eq_true, decide_eq_true_eq] at hi
        exact hk (by simpa [hi.1] using hi.2.symm)
    have hsplit : itemsOf key ((g :: rest).map (·.2)).flatten =
        itemsOf key g.2 ++ itemsOf key (rest.map (·.2)).flatten := by
      simp [itemsOf]
    rw [hsplit, hrest, hg]
    by_cases hk : g.1 = key
    · subst hk
      simp [hn.1]
    · have hne : ¬ key = g.1 := fun h => hk h.symm
      simp only [if_neg hk, List.nil_append, List.map_cons, List.mem_cons, hne, false_or]

theorem batches?_eq (size : Nat) (items : List IndexItem) :
    batches? size items = (items.mapM fun item => (groupKey? item).map (·, item)).map
      fun keyed => pack size [] ((group keyed).map (·.2)) := by
  change (items.mapM fun item => (groupKey? item).map (·, item)).bind _ = _
  rw [Option.map_eq_bind]
  rfl

/-- The batches of items are runs of their groups. -/
theorem batches?_eq_some {size : Nat} {items : List IndexItem} {batches : List (List IndexItem)}
    (h : batches? size items = some batches) :
    ∃ groups : List (GroupKey × List IndexItem), batches = pack size [] (groups.map (·.2)) ∧
      (groups.map (·.1)).Nodup ∧ (∀ g ∈ groups, g.2 = itemsOf g.1 items) ∧
      (∀ item ∈ items, ∃ key ∈ groups.map (·.1), groupKey? item = some key) ∧
      (groups.map (·.1)).Pairwise fun k l => place items (some k) < place items (some l) := by
  rw [batches?_eq] at h
  cases hk : items.mapM (fun item => (groupKey? item).map (·, item)) with
  | none => simp [hk] at h
  | some keyed =>
    have hg := grouped_group keyed
    refine ⟨group keyed, by simpa [hk] using h.symm, hg.nodup, ?_, ?_, ?_⟩
    · intro g hgm
      rw [hg.elements g hgm, itemsOf_eq_filter hk]
    · intro item hi
      obtain ⟨h1, h2⟩ := keyed_items hk
      rw [← h1, List.mem_map] at hi
      obtain ⟨ka, hka, rfl⟩ := hi
      exact ⟨ka.1, hg.covers ka hka, h2 ka hka⟩
    · simpa only [idxOf_keyed hk] using hg.order

/-- Of the items of one file, the first batches hold all or none. -/
theorem itemsOf_take_batches {size : Nat} {items : List IndexItem}
    {batches : List (List IndexItem)} (h : batches? size items = some batches) (n : Nat)
    (key : GroupKey) :
    itemsOf key (batches.take n).flatten = [] ∨
      itemsOf key (batches.take n).flatten = itemsOf key items := by
  obtain ⟨groups, rfl, hn, he, -⟩ := batches?_eq_some h
  obtain ⟨j, hj⟩ := take_pack size n (groups.map (·.2))
  have hnodup : ((groups.take j).map (·.1)).Nodup := by
    rw [List.map_take]
    exact hn.sublist (List.take_sublist _ _)
  have hitems : ∀ g ∈ groups.take j, g.2 = itemsOf g.1 items :=
    fun g hg => he g (List.mem_of_mem_take hg)
  rw [hj, ← List.map_take, itemsOf_take_groups hnodup hitems]
  split
  · exact Or.inr rfl
  · exact Or.inl rfl

/-- All batches together hold the items of a file in their order. -/
theorem itemsOf_batches {size : Nat} {items : List IndexItem} {batches : List (List IndexItem)}
    (h : batches? size items = some batches) (key : GroupKey) :
    itemsOf key batches.flatten = itemsOf key items := by
  obtain ⟨groups, rfl, hn, he, hc, -⟩ := batches?_eq_some h
  rw [flatten_pack, List.nil_append, itemsOf_take_groups hn he]
  split
  · rfl
  · next hk =>
    symm
    unfold itemsOf
    rw [List.filter_eq_nil_iff]
    intro item hi hg
    obtain ⟨key', hkey', hg'⟩ := hc item hi
    rw [decide_eq_true_eq, hg', Option.some.injEq] at hg
    exact hk (hg ▸ hkey')

theorem mem_batches {size : Nat} {items : List IndexItem} {batches : List (List IndexItem)}
    (h : batches? size items = some batches) {item : IndexItem} :
    item ∈ batches.flatten ↔ item ∈ items := by
  obtain ⟨groups, rfl, hn, he, hc, -⟩ := batches?_eq_some h
  rw [flatten_pack, List.nil_append, List.mem_flatten]
  constructor
  · rintro ⟨g, hg, hi⟩
    obtain ⟨kg, hkg, rfl⟩ := List.mem_map.1 hg
    rw [he kg hkg] at hi
    exact (List.mem_filter.1 hi).1
  · intro hi
    obtain ⟨key, hkey, hg⟩ := hc item hi
    obtain ⟨kg, hkg, rfl⟩ := List.mem_map.1 hkey
    refine ⟨kg.2, List.mem_map.2 ⟨kg, hkg, rfl⟩, ?_⟩
    rw [he kg hkg]
    exact List.mem_filter.2 ⟨hi, by simpa using hg⟩

/-- Items that are all of one file stand in the batches as they were given. -/
theorem filter_batches {size : Nat} {items : List IndexItem} {batches : List (List IndexItem)}
    (h : batches? size items = some batches) {P : IndexItem → Bool}
    (hP : ∀ a ∈ items, ∀ b ∈ items, P a = true → P b = true → groupKey? a = groupKey? b) :
    batches.flatten.filter P = items.filter P := by
  by_cases hex : ∃ item ∈ items, P item = true
  · obtain ⟨item, hitem, hp⟩ := hex
    obtain ⟨groups, -, -, -, hc, -⟩ := batches?_eq_some h
    obtain ⟨key, -, hkey⟩ := hc item hitem
    -- only items of this file pass, so that looking at its items is enough
    have hone : ∀ l : List IndexItem, (∀ a ∈ l, a ∈ items) → l.filter P = (itemsOf key l).filter P := by
      intro l hl
      rw [itemsOf, List.filter_filter]
      apply List.filter_congr
      intro a ha
      by_cases hpa : P a = true
      · simp [hpa, (hP a (hl a ha) item hitem hpa hp).trans hkey]
      · simp [hpa]
    rw [hone _ fun a ha => (mem_batches h).1 ha, itemsOf_batches h, ← hone _ fun a ha => ha]
  · have hnone : items.filter P = [] := by
      rw [List.filter_eq_nil_iff]
      exact fun a ha hp => hex ⟨a, ha, hp⟩
    rw [hnone, List.filter_eq_nil_iff]
    exact fun a ha hp => hex ⟨a, (mem_batches h).1 ha, hp⟩

/-- The items of a file that comes up earlier stand earlier. -/
theorem pairwise_batches {size : Nat} {items : List IndexItem} {batches : List (List IndexItem)}
    (h : batches? size items = some batches) : batches.flatten.Pairwise fun a b =>
      place items (groupKey? a) ≤ place items (groupKey? b) := by
  obtain ⟨groups, rfl, -, he, -, ho⟩ := batches?_eq_some h
  have hkey : ∀ g ∈ groups, ∀ a ∈ g.2, groupKey? a = some g.1 := by
    intro g hg a ha
    rw [he g hg] at ha
    exact of_decide_eq_true (List.mem_filter.1 ha).2
  rw [flatten_pack, List.nil_append, List.pairwise_flatten, List.pairwise_map]
  constructor
  · intro l hl
    obtain ⟨g, hg, rfl⟩ := List.mem_map.1 hl
    refine (List.pairwise_of_forall (R := fun _ _ => True) fun _ _ => trivial).imp_of_mem ?_
    intro a b ha hb _
    exact Nat.le_of_eq (by rw [hkey g hg a ha, hkey g hg b hb])
  · refine (List.pairwise_map.1 ho).imp_of_mem fun hg hg' hlt a ha b hb => ?_
    rw [hkey _ hg a ha, hkey _ hg' b hb]
    exact Nat.le_of_lt hlt

theorem mem_take_batches {size : Nat} {items : List IndexItem} {batches : List (List IndexItem)}
    (h : batches? size items = some batches) {n : Nat} {item : IndexItem}
    (hi : item ∈ (batches.take n).flatten) : item ∈ items := by
  obtain ⟨batch, hbatch, hitem⟩ := List.mem_flatten.1 hi
  exact (mem_batches h).1 (List.mem_flatten.2 ⟨batch, List.mem_of_mem_take hbatch, hitem⟩)

/-- Items that can all be grouped have batches. -/
theorem exists_batches (size : Nat) {items : List IndexItem}
    (h : ∀ item ∈ items, (groupKey? item).isSome) :
    ∃ batches, batches? size items = some batches := by
  have hm : ∃ keyed, items.mapM (fun item => (groupKey? item).map (·, item)) = some keyed := by
    induction items with
    | nil => exact ⟨[], rfl⟩
    | cons item rest ih =>
      obtain ⟨more, hmore⟩ := ih fun i hi => h i (List.mem_cons_of_mem _ hi)
      obtain ⟨k, hk⟩ := Option.isSome_iff_exists.1 (h item List.mem_cons_self)
      exact ⟨(k, item) :: more, by simp [List.mapM_cons, hk, hmore]⟩
  obtain ⟨keyed, hkeyed⟩ := hm
  exact ⟨pack size [] ((group keyed).map (·.2)), by rw [batches?_eq, hkeyed]; rfl⟩

end CodeAtlas.Batch
