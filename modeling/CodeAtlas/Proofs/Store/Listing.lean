import CodeAtlas.Proofs.Sort
import CodeAtlas.Proofs.Store.Calls

/-!
# Listing keys

Ids are in a total order, so a listing runs strictly upwards and the id of the next point tells
where its next page begins (`listing_from`). The pages together are the whole listing
(`run_pages`), which gives the keys of all points that pass the filter:

    run (ix.keys file project) c = (.ok found, c') → DistinctIds c.points →
      (key ∈ found.filterMap Value.text? ↔ HoldsKey (filterOf file project) c.points key)
                                                                              (mem_keys)
-/

namespace CodeAtlas

/-! ## The order of ids -/

namespace PointId

theorem le_uuid {a b : String} : (uuid a).le (uuid b) = true ↔ a ≤ b := by
  show (!decide (b < a)) = true ↔ a ≤ b
  rw [Bool.not_eq_true', decide_eq_false_iff_not, String.not_lt]

theorem le_refl (a : PointId) : a.le a = true := by
  cases a with
  | number n => exact decide_eq_true (Int.le_refl n)
  | uuid s => exact le_uuid.2 (String.le_refl s)

theorem le_total (a b : PointId) : (a.le b || b.le a) = true := by
  rw [Bool.or_eq_true]
  cases a with
  | number m =>
    cases b with
    | number n => exact (Int.le_total m n).imp decide_eq_true decide_eq_true
    | uuid t => exact Or.inl rfl
  | uuid s =>
    cases b with
    | number n => exact Or.inr rfl
    | uuid t => exact (String.le_total s t).imp le_uuid.2 le_uuid.2

theorem le_trans (a b c : PointId) (hab : a.le b = true) (hbc : b.le c = true) :
    a.le c = true := by
  cases a with
  | number m =>
    cases c with
    | number k =>
      cases b with
      | number n => exact decide_eq_true (Int.le_trans (of_decide_eq_true hab) (of_decide_eq_true hbc))
      | uuid t => cases hbc
    | uuid u => rfl
  | uuid s =>
    cases b with
    | number n => cases hab
    | uuid t =>
      cases c with
      | number k => cases hbc
      | uuid u => exact le_uuid.2 (String.le_trans (le_uuid.1 hab) (le_uuid.1 hbc))

theorem le_antisymm {a b : PointId} (hab : a.le b = true) (hba : b.le a = true) : a = b := by
  cases a with
  | number m =>
    cases b with
    | number n => rw [Int.le_antisymm (of_decide_eq_true hab) (of_decide_eq_true hba)]
    | uuid t => cases hba
  | uuid s =>
    cases b with
    | number n => cases hab
    | uuid t => rw [String.le_antisymm (le_uuid.1 hab) (le_uuid.1 hba)]

end PointId

/-! ## Pages of a listing -/

namespace Collection

theorem mem_listing {c : Collection} {f : PayloadFilter} {p : Point} :
    p ∈ c.listing f ↔ p ∈ c.points ∧ f.accepts p.payload = true := by
  simp [listing]

theorem length_listing_le (c : Collection) (f : PayloadFilter) :
    (c.listing f).length ≤ c.points.length := by
  rw [listing, length_sortBy]
  exact List.length_filter_le _ _

/-- A listing runs strictly upwards. -/
theorem pairwise_listing {c : Collection} (hd : DistinctIds c.points) (f : PayloadFilter) :
    (c.listing f).Pairwise fun p q => p.id.le q.id = true ∧ p.id ≠ q.id := by
  have hs : (c.listing f).Pairwise fun p q => p.id.le q.id = true :=
    pairwise_sortBy (fun a b c => PointId.le_trans a.id b.id c.id)
      (fun a b => PointId.le_total a.id b.id) _
  have hn : ((c.listing f).map (·.id)).Nodup := by
    have hp : ((c.listing f).map (·.id)).Perm
        ((c.points.filter fun p => f.accepts p.payload).map (·.id)) := (perm_sortBy _ _).map _
    rw [hp.nodup_iff]
    exact List.Nodup.sublist (List.filter_sublist.map _) hd
  exact hs.and (List.pairwise_map.1 hn)

/-- What stands from a point of the listing on has the ids from its id on. -/
theorem listing_from {points before after : List Point} {q : Point}
    (hs : points.Pairwise fun p q => p.id.le q.id = true ∧ p.id ≠ q.id)
    (h : points = before ++ q :: after) :
    (points.filter fun p => q.id.le p.id) = q :: after := by
  subst h
  rw [List.pairwise_append] at hs
  obtain ⟨-, hq, hb⟩ := hs
  rw [List.pairwise_cons] at hq
  have hnone : before.filter (fun p => q.id.le p.id) = [] := by
    rw [List.filter_eq_nil_iff]
    intro p hp hle
    obtain ⟨h1, h2⟩ := hb p hp q List.mem_cons_self
    exact h2 (PointId.le_antisymm h1 hle)
  rw [List.filter_append, hnone, List.nil_append, List.filter_eq_self]
  intro p hp
  rcases List.mem_cons.1 hp with rfl | hp
  · exact PointId.le_refl _
  · exact (hq.1 p hp).1

/-- The part of a listing that pages from an offset on show. -/
def remaining (c : Collection) (f : PayloadFilter) : Option PointId → List Point
  | none => c.listing f
  | some id => (c.listing f).filter fun p => id.le p.id

theorem mem_of_mem_remaining {c : Collection} {f : PayloadFilter} {offset : Option PointId}
    {p : Point} (h : p ∈ c.remaining f offset) : p ∈ c.listing f := by
  cases offset with
  | none => exact h
  | some id => exact (List.mem_filter.1 h).1

theorem page_eq (c : Collection) (f : PayloadFilter) (limit : Nat) (offset : Option PointId) :
    c.page f limit offset = ((c.remaining f offset).take limit,
      ((c.remaining f offset).drop limit).head?.map (·.id)) := by
  cases offset <;> rfl

/-- The next page begins where the last one ended. -/
theorem remaining_next {c : Collection} (hd : DistinctIds c.points) {f : PayloadFilter}
    {offset : Option PointId} {limit : Nat} {id : PointId}
    (hsuffix : c.remaining f offset <:+ c.listing f) (h : (c.page f limit offset).2 = some id) :
    c.remaining f (some id) = (c.remaining f offset).drop limit ∧
      limit < (c.remaining f offset).length := by
  rw [page_eq] at h
  obtain ⟨q, hq, rfl⟩ := Option.map_eq_some_iff.1 h
  obtain ⟨before, hb⟩ := hsuffix
  obtain ⟨after, ha⟩ : ∃ after, (c.remaining f offset).drop limit = q :: after := by
    cases hl : (c.remaining f offset).drop limit with
    | nil => simp [hl] at hq
    | cons p rest =>
      rw [hl] at hq
      exact ⟨rest, by simpa using hq⟩
  constructor
  · have hsplit : c.listing f = (before ++ (c.remaining f offset).take limit) ++ q :: after := by
      rw [List.append_assoc, ← ha, List.take_append_drop, hb]
    rw [ha]
    exact listing_from (pairwise_listing hd f) hsplit
  · apply Classical.byContradiction
    intro hle
    rw [List.drop_eq_nil_of_le (by omega)] at ha
    cases ha

end Collection

/-! ## Keys -/

namespace VectorIndex

open Client Collection

/-- Whether a text is the key of a point that passes a filter. -/
def HoldsKey (filter : PayloadFilter) (points : List Point) (key : Text) : Prop :=
  ∃ p ∈ points, filter.accepts p.payload = true ∧ keyOf p = .text key

/-- A written point has the key of its item. -/
theorem keyOf_pointOf (item : IndexItem) : keyOf (pointOf item) = .text item.id := by
  unfold keyOf pointOf
  rw [Fields.get?_set, if_pos rfl]
  rfl

theorem keeps_pageKeys (points : List Point) : Keeps (pageKeys points) := by
  unfold pageKeys
  split
  · exact keeps_pure _
  · exact keeps_throw _

theorem pageKeys_ok {points : List Point} {c c' : Client} {found : List Value}
    (h : run (pageKeys points) c = (.ok found, c')) : found = points.map keyOf := by
  unfold pageKeys at h
  split at h
  · cases h; rfl
  · cases h

theorem keeps_pages (filter : PayloadFilter) (offset : Option PointId) (fuel : Nat) :
    Keeps (pages filter offset fuel) := by
  induction fuel generalizing offset with
  | zero => exact keeps_pure _
  | succ fuel ih =>
    refine keeps_bind (keeps_scroll _ _ _) fun answer => keeps_bind (keeps_pageKeys _) fun found => ?_
    split
    · exact keeps_pure _
    · exact keeps_bind (ih _) fun _ => keeps_pure _

/-- What a page from an offset on can be: the last one, or one after which a page begins where it
ends. -/
inductive Paged (col : Collection) (filter : PayloadFilter) (offset : Option PointId) : Prop
  | last (hlength : (col.remaining filter offset).length ≤ pageSize)
    (hpage : col.page filter pageSize offset = (col.remaining filter offset, none))
  | more (id : PointId) (hlength : pageSize < (col.remaining filter offset).length)
    (hpage : col.page filter pageSize offset =
      ((col.remaining filter offset).take pageSize, some id))
    (hnext : ((col.remaining filter offset).drop pageSize).head?.map (·.id) = some id)
    (hrest : col.remaining filter (some id) = (col.remaining filter offset).drop pageSize)
    (hsuffix : col.remaining filter (some id) <:+ col.listing filter)
    (hless : (col.remaining filter (some id)).length < (col.remaining filter offset).length)

theorem paged {col : Collection} {filter : PayloadFilter} {offset : Option PointId}
    (hd : DistinctIds col.points)
    (hsuffix : col.remaining filter offset <:+ col.listing filter) : Paged col filter offset := by
  have hpage := page_eq col filter pageSize offset
  cases hnext : ((col.remaining filter offset).drop pageSize).head?.map (·.id) with
  | none =>
    rw [hnext] at hpage
    have hlength : (col.remaining filter offset).length ≤ pageSize := by simpa using hnext
    rw [List.take_of_length_le hlength] at hpage
    exact .last hlength hpage
  | some id =>
    rw [hnext] at hpage
    obtain ⟨hrest, hlength⟩ := remaining_next hd hsuffix (congrArg Prod.snd hpage)
    refine .more id hlength hpage hnext hrest (hrest ▸ (List.drop_suffix _ _).trans hsuffix) ?_
    rw [hrest, List.length_drop]
    unfold pageSize at hlength ⊢
    omega

/-- With a page to spare for each point, the pages show all that is left of the listing. -/
theorem run_pages {filter : PayloadFilter} {offset : Option PointId} {fuel : Nat}
    {c c' : Client} {col : Collection} {found : List Value} (hc : c.collection = some col)
    (hd : DistinctIds col.points) (hsuffix : col.remaining filter offset <:+ col.listing filter)
    (hfuel : (col.remaining filter offset).length < fuel)
    (h : run (pages filter offset fuel) c = (.ok found, c')) :
    found = (col.remaining filter offset).map keyOf := by
  induction fuel generalizing offset c found with
  | zero => omega
  | succ fuel ih =>
    obtain ⟨answer, c1, hs, h⟩ := run_bind_ok h
    obtain ⟨keys, c2, hk, h⟩ := run_bind_ok h
    obtain ⟨col', hcol', ha⟩ := scroll_ok hs
    rw [hc] at hcol'
    cases hcol'
    obtain rfl := pageKeys_ok hk
    rw [ha] at h
    cases paged hd hsuffix with
    | last hlength hpage =>
      rw [hpage] at h
      cases h
      rfl
    | more id hlength hpage hnext hrest hsuffix' hless =>
      rw [hpage] at h
      obtain ⟨more, c3, hm, h⟩ := run_bind_ok h
      cases h
      have hc2 : c2.collection = some col := by
        rw [(keeps_pageKeys _).eq hk, (keeps_scroll _ _ _).eq hs, hc]
      have hmore := ih hc2 hsuffix' (Nat.lt_of_lt_of_le hless (Nat.le_of_lt_succ hfuel)) hm
      rw [hmore, hrest, ← List.map_append, List.take_append_drop]

/-- Pages show nothing but points of the listing, whatever is stored. -/
theorem mem_pages {filter : PayloadFilter} {offset : Option PointId} {fuel : Nat} {c c' : Client}
    {found : List Value} (h : run (pages filter offset fuel) c = (.ok found, c')) {v : Value}
    (hv : v ∈ found) : ∃ p ∈ c.points, filter.accepts p.payload = true ∧ keyOf p = v := by
  induction fuel generalizing offset c found with
  | zero =>
    cases h
    cases hv
  | succ fuel ih =>
    obtain ⟨answer, c1, hs, h⟩ := run_bind_ok h
    obtain ⟨keys, c2, hk, h⟩ := run_bind_ok h
    obtain ⟨col, hcol, ha⟩ := scroll_ok hs
    have hpage : v ∈ keys → ∃ p ∈ c.points, filter.accepts p.payload = true ∧ keyOf p = v := by
      rw [pageKeys_ok hk, ha, page_eq]
      intro hm
      obtain ⟨p, hp, rfl⟩ := List.mem_map.1 hm
      obtain ⟨hin, hacc⟩ := mem_listing.1 (mem_of_mem_remaining (List.mem_of_mem_take hp))
      exact ⟨p, points_eq hcol ▸ hin, hacc, rfl⟩
    split at h
    · cases h
      exact hpage hv
    · obtain ⟨more, c3, hm, h⟩ := run_bind_ok h
      cases h
      rcases List.mem_append.1 hv with hv | hv
      · exact hpage hv
      · have hpts : c2.points = c.points :=
          points_congr (((keeps_pageKeys _).eq hk).trans ((keeps_scroll _ _ _).eq hs))
        rw [← hpts]
        exact ih hm hv

theorem keeps_keys (ix : VectorIndex) (file project : Option Sought) :
    Keeps (ix.keys file project) := by
  refine keeps_bind ix.keeps_exists? fun b => ?_
  split
  · exact keeps_bind keeps_get fun _ =>
      keeps_bind (keeps_adapt (keeps_pages _ _ _) _) fun _ => keeps_pure _
  · exact keeps_pure _

theorem keys_ok {ix : VectorIndex} {file project : Option Sought} {c c' : Client}
    {found : List Value} (hd : DistinctIds c.points)
    (h : run (ix.keys file project) c = (.ok found, c')) :
    found = distinctKeys
      (((c.collection.map (·.listing (filterOf file project))).getD []).map keyOf) := by
  obtain ⟨b, c1, he, h⟩ := run_bind_ok h
  have hk := ix.keeps_exists?.eq he
  have hb := exists?_ok he
  split at h
  · next hbt =>
    obtain ⟨c2, c3, hg, h⟩ := run_bind_ok h
    cases hg
    dsimp only at h
    obtain ⟨keys, c4, hp, h⟩ := run_bind_ok h
    cases h
    obtain ⟨col, hcol⟩ := Option.isSome_iff_exists.1 (hb.symm.trans hbt)
    rw [points_eq hcol] at hd
    have hc1 : c1.collection = some col := hk.trans hcol
    have hlen : (col.listing (filterOf file project)).length < c1.points.length + 1 := by
      rw [points_eq hc1]
      exact Nat.lt_succ_of_le (length_listing_le _ _)
    have hfound : keys = (col.remaining (filterOf file project) none).map keyOf :=
      run_pages hc1 hd (List.suffix_refl _) hlen (guarded_ok hp)
    rw [hfound, hcol]
    rfl
  · next hbf =>
    cases h
    have hnone : c.collection = none := by simpa [hb] using hbf
    rw [hnone]
    rfl

/-- A listing does not fail at a check of dimensions. -/
theorem keys_error {ix : VectorIndex} {file project : Option Sought} {c c' : Client}
    {e : IndexFailure} (h : run (ix.keys file project) c = (.error e, c')) :
    ∃ s, e = .service s ∧ s.isDimension = false := by
  rcases run_bind_error h with hx | ⟨b, c1, -, h⟩
  · exact exists?_error hx
  · split at h
    · rcases run_bind_error h with hg | ⟨c2, c3, -, h⟩
      · cases hg
      · rcases run_bind_error h with hp | ⟨_, _, -, h⟩
        · obtain ⟨cause, -, rfl⟩ := guarded_error hp
          exact ⟨_, rfl, rfl⟩
        · cases h
    · cases h

/-! ## Distinct keys -/

theorem sameKey_iff {v w : Value} :
    sameKey v w = true ↔ Batch.GroupKey.ofValue? v = Batch.GroupKey.ofValue? w := beq_iff_eq

theorem sameKey_text {s : Text} {v : Value} : sameKey (.text s) v = true ↔ v = .text s := by
  rw [sameKey_iff]
  constructor
  · intro h
    cases v with
    | text t =>
      simp only [Batch.GroupKey.ofValue?, Option.some.injEq, Batch.GroupKey.text.injEq] at h
      rw [h]
    | real x =>
      simp only [Batch.GroupKey.ofValue?] at h
      split at h <;> cases h
    | null | bool _ | int _ | list _ | dict _ => cases h
  · rintro rfl
    rfl

/-- The keys `found` are those of `vs`, each once. -/
structure KeySet (vs found : List Value) : Prop where
  sound : ∀ v ∈ found, v ∈ vs
  complete : ∀ v ∈ vs, ∃ w ∈ found, sameKey v w = true
  once : found.Pairwise fun v w => ¬ sameKey w v = true

/-- One key more is put at the end, if it is new. -/
theorem KeySet.add {vs found : List Value} (h : KeySet vs found) (v : Value) :
    KeySet (vs ++ [v]) (if found.any (sameKey v) then found else found ++ [v]) := by
  by_cases hv : found.any (sameKey v) = true
  · rw [if_pos hv]
    refine ⟨fun w hw => List.mem_append_left _ (h.sound w hw), fun w hw => ?_, h.once⟩
    rcases List.mem_append.1 hw with hw | hw
    · exact h.complete w hw
    · obtain rfl := List.mem_singleton.1 hw
      exact List.any_eq_true.1 hv
  · rw [if_neg hv]
    refine ⟨fun w hw => ?_, fun w hw => ?_, ?_⟩
    · rcases List.mem_append.1 hw with hw | hw
      · exact List.mem_append_left _ (h.sound w hw)
      · exact List.mem_append_right _ hw
    · rcases List.mem_append.1 hw with hw | hw
      · obtain ⟨u, hu, hsame⟩ := h.complete w hw
        exact ⟨u, List.mem_append_left _ hu, hsame⟩
      · exact ⟨w, List.mem_append_right _ hw, sameKey_iff.2 rfl⟩
    · rw [List.pairwise_append]
      refine ⟨h.once, List.pairwise_singleton _ _, fun w hw u hu hsame => ?_⟩
      obtain rfl := List.mem_singleton.1 hu
      exact hv (List.any_eq_true.2 ⟨w, hw, hsame⟩)

theorem keySet_distinctKeys (vs : List Value) : KeySet vs (distinctKeys vs) := by
  have run : ∀ vs before found, KeySet before found → KeySet (before ++ vs)
      (vs.foldl (fun found v => if found.any (sameKey v) then found else found ++ [v]) found) := by
    intro vs
    induction vs with
    | nil =>
      intro before found h
      rwa [List.append_nil]
    | cons v vs ih =>
      intro before found h
      have hrest := ih _ _ (h.add v)
      rwa [List.append_assoc, List.singleton_append] at hrest
  exact run vs [] [] ⟨nofun, nofun, .nil⟩

/-- A text is among the keys exactly if it is one of them. -/
theorem KeySet.text_mem_iff {vs found : List Value} (h : KeySet vs found) (s : Text) :
    .text s ∈ found ↔ .text s ∈ vs := by
  constructor
  · exact h.sound _
  · intro hs
    obtain ⟨w, hw, hsame⟩ := h.complete _ hs
    exact sameKey_text.1 hsame ▸ hw

theorem mem_filterMap_text {vs : List Value} {s : Text} :
    s ∈ vs.filterMap Value.text? ↔ .text s ∈ vs := by
  rw [List.mem_filterMap]
  constructor
  · rintro ⟨v, hv, hs⟩
    cases v <;> cases hs
    exact hv
  · exact fun hs => ⟨_, hs, rfl⟩

/-- Keys that are texts stay, each once. -/
theorem texts_distinctKeys (vs : List Value) :
    (∀ s, s ∈ (distinctKeys vs).filterMap Value.text? ↔ .text s ∈ vs) ∧
      ((distinctKeys vs).filterMap Value.text?).Nodup := by
  have h := keySet_distinctKeys vs
  refine ⟨fun s => mem_filterMap_text.trans (h.text_mem_iff s), ?_⟩
  refine h.once.filterMap _ fun v w hne s hs t ht heq => hne ?_
  subst heq
  cases v <;> cases hs
  cases w <;> cases ht
  exact sameKey_text.2 rfl

/-- A text that is listed is the key of a point that passes the filter, whatever is stored. -/
theorem mem_of_mem_keys {ix : VectorIndex} {file project : Option Sought} {c c' : Client}
    {found : List Value} (h : run (ix.keys file project) c = (.ok found, c')) {key : Text}
    (hkey : key ∈ found.filterMap Value.text?) :
    HoldsKey (filterOf file project) c.points key := by
  obtain ⟨b, c1, he, h⟩ := run_bind_ok h
  split at h
  · obtain ⟨c2, c3, hg, h⟩ := run_bind_ok h
    cases hg
    obtain ⟨keys, c4, hp, h⟩ := run_bind_ok h
    cases h
    rw [(texts_distinctKeys _).1 key] at hkey
    rw [← points_congr (ix.keeps_exists?.eq he)]
    exact mem_pages (guarded_ok hp) hkey
  · cases h
    cases hkey

/-- The texts listed are the keys of the points that pass the filter. -/
theorem mem_keys {ix : VectorIndex} {file project : Option Sought} {c c' : Client}
    {found : List Value} (hd : DistinctIds c.points)
    (h : run (ix.keys file project) c = (.ok found, c')) (key : Text) :
    key ∈ found.filterMap Value.text? ↔ HoldsKey (filterOf file project) c.points key := by
  unfold HoldsKey
  rw [keys_ok hd h, (texts_distinctKeys _).1 key, List.mem_map]
  cases hc : c.collection with
  | none => simp [points_none hc]
  | some col =>
    rw [points_eq hc]
    simp only [Option.map_some, Option.getD_some, mem_listing]
    constructor
    · rintro ⟨p, ⟨hp, ha⟩, hk⟩
      exact ⟨p, hp, ha, hk⟩
    · rintro ⟨p, hp, ha, hk⟩
      exact ⟨p, ⟨hp, ha⟩, hk⟩

theorem nodup_keys {ix : VectorIndex} {file project : Option Sought} {c c' : Client}
    {found : List Value} (hd : DistinctIds c.points)
    (h : run (ix.keys file project) c = (.ok found, c')) :
    (found.filterMap Value.text?).Nodup := by
  rw [keys_ok hd h]
  exact (texts_distinctKeys _).2

end VectorIndex

end CodeAtlas
