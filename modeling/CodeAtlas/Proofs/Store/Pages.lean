import CodeAtlas.Proofs.Store.Faultless
import CodeAtlas.Proofs.Store.Listing

/-!
# Pages of a key listing

A listing of keys asks for one page after the other until no point is left. Ids run strictly upwards,
so the pages from an offset on are the blocks of what is left of the listing, and there are as many
calls as blocks (`scrolls`):

    run (pages filter offset fuel) c =
      (.ok (rest.map keyOf), c.logged (scrolls filter offset rest))          (run_pages_eq)

A page to spare for each point is enough, and more change nothing (`pages_fuel`). So the index lists
the set of the keys of the points that match (`keys_page_by_page`).
-/

namespace CodeAtlas

namespace VectorIndex

open Client Collection

/-- Whether the key of a point can be put into a set: it is no list and no dictionary. -/
def CanBeListed (p : Point) : Prop := (Batch.GroupKey.ofValue? (keyOf p)).isSome = true

instance (p : Point) : Decidable (CanBeListed p) := inferInstanceAs (Decidable (_ = true))

/-- The calls that show points from an offset on: each page begins at the first point that the pages
before it have not shown. -/
def scrolls (filter : PayloadFilter) (offset : Option PointId) (points : List Point) : List Call :=
  (List.range ((points.length - 1) / pageSize + 1)).map fun k =>
    .scroll filter pageSize (if k = 0 then offset else points[k * pageSize]?.map (·.id))

/-- One call for every 256 points, and one if there is none. -/
theorem length_scrolls (filter : PayloadFilter) (offset : Option PointId) (points : List Point) :
    (scrolls filter offset points).length = (points.length - 1) / pageSize + 1 := by
  simp [scrolls]

theorem scrolls_last {points : List Point} (h : points.length ≤ pageSize) (filter : PayloadFilter)
    (offset : Option PointId) :
    scrolls filter offset points = [.scroll filter pageSize offset] := by
  have hone : (points.length - 1) / pageSize = 0 := by
    unfold pageSize at h ⊢
    omega
  simp [scrolls, hone]

theorem scrolls_more {points : List Point} (h : pageSize < points.length) (filter : PayloadFilter)
    (offset : Option PointId) :
    scrolls filter offset points = .scroll filter pageSize offset ::
      scrolls filter ((points.drop pageSize).head?.map (·.id)) (points.drop pageSize) := by
  have hcount : (points.length - 1) / pageSize =
      ((points.drop pageSize).length - 1) / pageSize + 1 := by
    rw [List.length_drop]
    unfold pageSize at h ⊢
    omega
  unfold scrolls
  rw [hcount, List.range_succ_eq_map, List.map_cons, List.map_map, if_pos rfl]
  congr 1
  apply List.map_congr_left
  intro k _
  have hplace : points[(k + 1) * pageSize]? = (points.drop pageSize)[k * pageSize]? := by
    rw [List.getElem?_drop]
    congr 1
    rw [Nat.add_mul, Nat.one_mul, Nat.add_comm]
  rw [Function.comp_apply, Nat.succ_eq_add_one, if_neg (Nat.succ_ne_zero k), hplace]
  by_cases hk : k = 0
  · subst hk
    rw [if_pos rfl, Nat.zero_mul, ← List.head?_eq_getElem?]
  · rw [if_neg hk]

theorem run_pageKeys_of_listed {points : List Point} (h : ∀ p ∈ points, CanBeListed p) (c : Client) :
    run (pageKeys points) c = (.ok (points.map keyOf), c) := by
  unfold pageKeys
  rw [if_pos (List.all_eq_true.2 h), run_pure]

theorem run_pageKeys_of_not_listed {points : List Point} {p : Point} (hp : p ∈ points)
    (h : ¬ CanBeListed p) (c : Client) : run (pageKeys points) c = (.error .badKey, c) := by
  have hall : ¬ (points.all fun p => (Batch.GroupKey.ofValue? (keyOf p)).isSome) = true :=
    fun hall => h (List.all_eq_true.1 hall p hp)
  unfold pageKeys
  rw [if_neg hall, run_throw]

section

variable {filter : PayloadFilter} {offset : Option PointId} {fuel : Nat} {c : Client}
  {col : Collection}

/-- What the pages from an offset on show, and the calls that they take. -/
theorem run_pages_eq (h : c.IsFaultless) (hc : c.collection = some col)
    (hd : DistinctIds col.points) (hsuffix : col.remaining filter offset <:+ col.listing filter)
    (hfuel : (col.remaining filter offset).length < fuel)
    (hkeys : ∀ p ∈ col.remaining filter offset, CanBeListed p) :
    run (pages filter offset fuel) c = (.ok ((col.remaining filter offset).map keyOf),
      c.logged (scrolls filter offset (col.remaining filter offset))) := by
  induction fuel generalizing offset c with
  | zero => omega
  | succ fuel ih =>
    have hscroll := run_scroll_of_faultless h hc filter pageSize offset
    unfold pages
    cases paged hd hsuffix with
    | last hlength hpage =>
      rw [hpage] at hscroll
      rw [run_bind_of_ok hscroll, run_bind_of_ok (run_pageKeys_of_listed hkeys _),
        scrolls_last hlength]
      rfl
    | more id hlength hpage hnext hrest hsuffix' hless =>
      rw [hpage] at hscroll
      have hmore := ih (h.logged [.scroll filter pageSize offset]) hc hsuffix'
        (Nat.lt_of_lt_of_le hless (Nat.le_of_lt_succ hfuel))
        (by rw [hrest]; exact fun p hp => hkeys p (List.mem_of_mem_drop hp))
      rw [run_bind_of_ok hscroll,
        run_bind_of_ok (run_pageKeys_of_listed (fun p hp => hkeys p (List.mem_of_mem_take hp)) _)]
      dsimp only
      rw [run_bind_of_ok hmore, run_pure, logged_logged, List.singleton_append,
        scrolls_more hlength, hnext, hrest, ← List.map_append, List.take_append_drop]

/-- A point whose key cannot be put into a set ends the listing at its page. -/
theorem run_pages_badKey (h : c.IsFaultless) (hc : c.collection = some col)
    (hd : DistinctIds col.points) (hsuffix : col.remaining filter offset <:+ col.listing filter)
    (hfuel : (col.remaining filter offset).length < fuel)
    (hkeys : ∃ p ∈ col.remaining filter offset, ¬ CanBeListed p) :
    (run (pages filter offset fuel) c).1 = .error .badKey := by
  induction fuel generalizing offset c with
  | zero => omega
  | succ fuel ih =>
    obtain ⟨p, hp, hbad⟩ := hkeys
    have hscroll := run_scroll_of_faultless h hc filter pageSize offset
    unfold pages
    cases paged hd hsuffix with
    | last hlength hpage =>
      rw [hpage] at hscroll
      rw [run_bind_of_ok hscroll, run_bind_of_error (run_pageKeys_of_not_listed hp hbad _)]
    | more id hlength hpage hnext hrest hsuffix' hless =>
      rw [hpage] at hscroll
      rw [run_bind_of_ok hscroll]
      by_cases hfirst : ∀ q ∈ (col.remaining filter offset).take pageSize, CanBeListed q
      · have hlater : p ∈ (col.remaining filter offset).drop pageSize := by
          rw [← List.take_append_drop pageSize (col.remaining filter offset)] at hp
          exact (List.mem_append.1 hp).resolve_left fun hin => hbad (hfirst p hin)
        have hmore := ih (h.logged [.scroll filter pageSize offset]) hc hsuffix'
          (Nat.lt_of_lt_of_le hless (Nat.le_of_lt_succ hfuel)) ⟨p, hrest ▸ hlater, hbad⟩
        rw [run_bind_of_ok (run_pageKeys_of_listed hfirst _)]
        dsimp only
        rw [run_bind_of_error (Prod.ext hmore rfl)]
      · simp only [not_forall] at hfirst
        obtain ⟨q, hq, hbad⟩ := hfirst
        rw [run_bind_of_error (run_pageKeys_of_not_listed hq hbad _)]

/-- With a page to spare for each point, more pages change nothing, whatever the faults. -/
theorem pages_fuel (hc : c.collection = some col) (hd : DistinctIds col.points)
    (hsuffix : col.remaining filter offset <:+ col.listing filter)
    (hfuel : (col.remaining filter offset).length < fuel) (extra : Nat) :
    run (pages filter offset (fuel + extra)) c = run (pages filter offset fuel) c := by
  induction fuel generalizing offset c with
  | zero => omega
  | succ fuel ih =>
    rw [Nat.succ_add]
    unfold pages
    rw [run_bind, run_bind]
    cases hscroll : run (scroll filter pageSize offset) c with
    | mk answer c1 =>
      cases answer with
      | error e => rfl
      | ok page =>
        dsimp only
        rw [run_bind, run_bind]
        cases hkeys : run (pageKeys page.1) c1 with
        | mk answer c2 =>
          cases answer with
          | error e => rfl
          | ok found =>
            obtain ⟨col', hcol', rfl⟩ := scroll_ok hscroll
            cases hc.symm.trans hcol'
            have hc2 : c2.collection = some col := by
              rw [(keeps_pageKeys _).eq hkeys, (keeps_scroll _ _ _).eq hscroll, hc]
            dsimp only
            cases paged hd hsuffix with
            | last hlength hpage => rw [hpage]
            | more id hlength hpage hnext hrest hsuffix' hless =>
              rw [hpage]
              dsimp only
              rw [run_bind, run_bind, ih hc2 hsuffix'
                (Nat.lt_of_lt_of_le hless (Nat.le_of_lt_succ hfuel))]

end

theorem KeySet.congr {vs vs' found : List Value} (h : KeySet vs found) (hmem : ∀ v, v ∈ vs ↔ v ∈ vs') :
    KeySet vs' found :=
  ⟨fun v hv => (hmem v).1 (h.sound v hv), fun v hv => h.complete v ((hmem v).2 hv), h.once⟩

/-- The points that pass a filter. -/
def matching (points : List Point) (filter : PayloadFilter) : List Point :=
  points.filter fun p => filter.accepts p.payload

theorem mem_listing_iff {col : Collection} {filter : PayloadFilter} {p : Point} :
    p ∈ col.listing filter ↔ p ∈ matching col.points filter := by
  rw [mem_listing, matching, List.mem_filter]

/-- A listing allows for a page to spare for each of its points. -/
theorem pages_suffice (col : Collection) (filter : PayloadFilter) :
    (col.remaining filter none).length < col.points.length + 1 :=
  Nat.lt_succ_of_le (length_listing_le col filter)

theorem run_keys_of_found (ix : VectorIndex) {c : Client} {col : Collection} (h : c.IsFaultless)
    (hc : c.collection = some col) (file project : Option Sought) :
    run (ix.keys file project) c =
      match run (pages (filterOf file project) none (col.points.length + 1))
        (c.logged [.collectionExists]) with
      | (.ok found, c') => (.ok (distinctKeys found), c')
      | (.error e, c') => (.error (.service (.list ix.name e)), c') := by
  have hexists : run ix.exists? c = (.ok true, c.logged [.collectionExists]) := by
    unfold exists? guarded
    rw [run_adapt, run_collectionExists_of_faultless h, hc]
    rfl
  have hget : run (getThe Client : IndexM Client) (c.logged [.collectionExists]) =
      (.ok (c.logged [.collectionExists]), c.logged [.collectionExists]) := rfl
  have hpoints : (c.logged [.collectionExists]).points = col.points := points_eq hc
  unfold VectorIndex.keys
  rw [run_bind_of_ok hexists, if_pos rfl, run_bind_of_ok hget, run_bind, hpoints]
  unfold guarded
  rw [run_adapt]
  rcases run (pages (filterOf file project) none (col.points.length + 1))
    (c.logged [.collectionExists]) with ⟨answer, c'⟩
  cases answer <;> rfl

/-- The listing of points whose keys can be listed. -/
theorem run_keys_of_listed (ix : VectorIndex) {c : Client} {col : Collection} (h : c.IsFaultless)
    (hc : c.collection = some col) (hd : DistinctIds col.points) (file project : Option Sought)
    (hkeys : ∀ p ∈ matching col.points (filterOf file project), CanBeListed p) :
    run (ix.keys file project) c =
      (.ok (distinctKeys ((col.listing (filterOf file project)).map keyOf)),
        c.logged (.collectionExists ::
          scrolls (filterOf file project) none (col.listing (filterOf file project)))) := by
  have hpages := run_pages_eq (h.logged [.collectionExists]) hc hd (List.suffix_refl _)
    (pages_suffice col (filterOf file project)) fun p hp => hkeys p (mem_listing_iff.1 hp)
  rw [ix.run_keys_of_found h hc, hpages]
  dsimp only
  rw [logged_logged, List.singleton_append]
  rfl

/-- **Listing keys page by page.** Where no call is refused, the loop over the pages ends: to allow
for more pages than there are points changes nothing. It asks once for each page of the points that
match the filter, and gives the set of their keys, unless one of these can be put into no set. -/
theorem keys_page_by_page (ix : VectorIndex) {c : Client} {col : Collection} (h : c.IsFaultless)
    (hc : c.collection = some col) (hd : DistinctIds col.points) (file project : Option Sought) :
    (∀ extra, run (pages (filterOf file project) none (col.points.length + 1 + extra)) c =
      run (pages (filterOf file project) none (col.points.length + 1)) c) ∧
    ((∀ p ∈ matching col.points (filterOf file project), CanBeListed p) →
      ∃ found, KeySet ((matching col.points (filterOf file project)).map keyOf) found ∧
        run (ix.keys file project) c = (.ok found, c.logged (.collectionExists ::
          scrolls (filterOf file project) none (col.listing (filterOf file project))))) ∧
    ((∃ p ∈ matching col.points (filterOf file project), ¬ CanBeListed p) →
      (run (ix.keys file project) c).1 = .error (.service (.list ix.name .badKey))) := by
  have hfuel := pages_suffice col (filterOf file project)
  refine ⟨pages_fuel hc hd (List.suffix_refl _) hfuel, ?_, ?_⟩
  · intro hkeys
    refine ⟨_, ?_, ix.run_keys_of_listed h hc hd file project hkeys⟩
    refine (keySet_distinctKeys _).congr fun v => ?_
    simp only [List.mem_map, mem_listing_iff]
  · rintro ⟨p, hp, hbad⟩
    have hpages := run_pages_badKey (h.logged [.collectionExists]) hc hd
      (List.suffix_refl _) hfuel ⟨p, mem_listing_iff.2 hp, hbad⟩
    rw [ix.run_keys_of_found h hc]
    split
    · next found c' hrun =>
      rw [hrun] at hpages
      cases hpages
    · next e c' hrun =>
      rw [hrun] at hpages
      cases hpages
      rfl

namespace Sample

/-- A point with a key, and some with numbers for ids and no keys. -/
def mixed (n : Nat) : List Point :=
  pointOf ⟨"m.py::m.py_f_0", [1], []⟩ :: (List.range n).map fun i : Nat => ⟨.number i, [1], []⟩

theorem distinctIds_mixed (n : Nat) : DistinctIds (mixed n) := by
  unfold DistinctIds mixed
  rw [List.map_cons, List.map_map, List.nodup_cons]
  refine ⟨?_, List.nodup_range.map fun i j hij => Int.ofNat.inj (PointId.number.inj hij)⟩
  rw [List.mem_map]
  rintro ⟨i, -, hi⟩
  cases hi

theorem canBeListed_mixed {n : Nat} : ∀ p ∈ mixed n, CanBeListed p := by
  intro p hp
  rcases List.mem_cons.1 hp with rfl | hp
  · decide +kernel
  · obtain ⟨i, -, rfl⟩ := List.mem_map.1 hp
    rfl

end Sample

/-- All points are found, those with a key and those without, with two calls for their pages. -/
theorem keys_of_mixed : ∃ found c', run (VectorIndex.keys ⟨.text "code", 64⟩ none none)
      ⟨.text "code", some ⟨some 1, Sample.mixed 300⟩, [], []⟩ = (.ok found, c') ∧
    .text "m.py::m.py_f_0" ∈ found ∧ .text "299" ∈ found ∧ c'.calls.length = 3 := by
  have hfaultless : Client.IsFaultless ⟨.text "code", some ⟨some 1, Sample.mixed 300⟩, [], []⟩ :=
    ⟨rfl, by decide⟩
  have hall : matching (Sample.mixed 300) (filterOf none none) = Sample.mixed 300 :=
    List.filter_eq_self.2 fun _ _ => rfl
  obtain ⟨-, hlisted, -⟩ := keys_page_by_page ⟨.text "code", 64⟩ hfaultless rfl
    (Sample.distinctIds_mixed 300) none none
  rw [hall] at hlisted
  obtain ⟨found, hfound, hrun⟩ := hlisted Sample.canBeListed_mixed
  refine ⟨found, _, hrun, ?_, ?_, ?_⟩
  · exact (hfound.text_mem_iff _).2 (List.mem_map.2 ⟨_, List.mem_cons_self, keyOf_pointOf _⟩)
  · refine (hfound.text_mem_iff _).2 (List.mem_map.2 ⟨⟨.number 299, [1], []⟩, ?_, ?_⟩)
    · exact List.mem_cons_of_mem _ (List.mem_map.2 ⟨299, List.mem_range.2 (by decide), rfl⟩)
    · have htext : Integer.text 299 = "299" := by decide +kernel
      exact congrArg (fun s : String => Value.text s) htext
  · have hlength :
        (Collection.listing ⟨some 1, Sample.mixed 300⟩ (filterOf none none)).length = 301 := by
      rw [Collection.listing, length_sortBy]
      refine (congrArg List.length hall).trans ?_
      rw [Sample.mixed, List.length_cons, List.length_map, List.length_range]
    have hcalls : ∀ calls, (Client.logged ⟨.text "code", some ⟨some 1, Sample.mixed 300⟩, [], []⟩
        calls).calls = calls := fun _ => rfl
    rw [hcalls, List.length_cons, length_scrolls, hlength]
    rfl

end VectorIndex

end CodeAtlas
