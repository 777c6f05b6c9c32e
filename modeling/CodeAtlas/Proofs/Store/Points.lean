import CodeAtlas.Store.Index
import Mathlib.Data.List.Nodup

/-!
# Points as a map

A collection is read as a map from ids to points (`pointAt`). Writing points one after the other
lays them over the old ones (`overlay`), the last point of an id winning:

    pointAt (overlay old new) id = (pointAt new.reverse id).or (pointAt old id)   (pointAt_overlay)

and no id is ever stored twice (`distinctIds_overlay`).
-/

namespace CodeAtlas.Collection

/-- The first point with an id. -/
def pointAt (points : List Point) (id : PointId) : Option Point := points.find? (·.id = id)

/-- No two points share an id. -/
def DistinctIds (points : List Point) : Prop := (points.map (·.id)).Nodup

/-- The points after writing new ones in turn. -/
def overlay (old new : List Point) : List Point := new.foldl insertPoint old

/-- The points without those of the given ids. -/
def without (points : List Point) (ids : List PointId) : List Point :=
  points.filter fun p => !ids.contains p.id

/-! ## Looking up -/

theorem pointAt_eq_some {points : List Point} {id : PointId} {p : Point}
    (h : pointAt points id = some p) : p ∈ points ∧ p.id = id := by
  refine ⟨List.mem_of_find?_eq_some h, ?_⟩
  simpa using List.find?_some h

theorem pointAt_eq_none_iff {points : List Point} {id : PointId} :
    pointAt points id = none ↔ ∀ p ∈ points, p.id ≠ id := by
  simp [pointAt, List.find?_eq_none]

/-- Where ids are distinct, a point is stored iff it is found under its id. -/
theorem mem_iff_pointAt {points : List Point} (hd : DistinctIds points) (p : Point) :
    p ∈ points ↔ pointAt points p.id = some p := by
  constructor
  · intro hp
    cases h : pointAt points p.id with
    | none => exact absurd rfl (pointAt_eq_none_iff.1 h p hp)
    | some q =>
      obtain ⟨hq, hid⟩ := pointAt_eq_some h
      rw [List.inj_on_of_nodup_map hd hq hp hid]
  · intro h
    exact (pointAt_eq_some h).1

theorem eq_of_id_eq {points : List Point} (hd : DistinctIds points) {p q : Point}
    (hp : p ∈ points) (hq : q ∈ points) (h : p.id = q.id) : p = q :=
  List.inj_on_of_nodup_map hd hp hq h

/-! ## Writing -/

theorem pointAt_insertPoint (points : List Point) (p : Point) (id : PointId) :
    pointAt (insertPoint points p) id = if p.id = id then some p else pointAt points id := by
  induction points with
  | nil => by_cases h : p.id = id <;> simp [insertPoint, pointAt, h]
  | cons q rest ih =>
    unfold insertPoint
    by_cases hq : q.id = p.id
    · rw [if_pos hq]
      by_cases hp : p.id = id
      · simp [pointAt, hp]
      · simp [pointAt, hq, hp]
    · rw [if_neg hq]
      simp only [pointAt, List.find?_cons] at ih ⊢
      rw [ih]
      by_cases hqi : q.id = id
      · have hp : ¬ p.id = id := fun h => hq (hqi.trans h.symm)
        simp [hqi, hp]
      · simp [hqi]

/-- The ids after inserting a point: a new id comes last. -/
theorem ids_insertPoint (points : List Point) (p : Point) :
    (insertPoint points p).map (·.id) =
      if p.id ∈ points.map (·.id) then points.map (·.id) else points.map (·.id) ++ [p.id] := by
  induction points with
  | nil => simp [insertPoint]
  | cons q rest ih =>
    unfold insertPoint
    by_cases hq : q.id = p.id
    · simp [hq]
    · rw [if_neg hq, List.map_cons, ih]
      have hne : ¬ p.id = q.id := fun h => hq h.symm
      by_cases hm : p.id ∈ rest.map (·.id)
      · simp only [List.map_cons, List.mem_cons, hm, or_true, if_true]
      · simp only [List.map_cons, List.mem_cons, hm, hne, or_false, if_false, List.cons_append]

theorem distinctIds_insertPoint {points : List Point} (hd : DistinctIds points) (p : Point) :
    DistinctIds (insertPoint points p) := by
  unfold DistinctIds at hd ⊢
  rw [ids_insertPoint]
  split
  · exact hd
  · next h =>
    rw [List.nodup_append]
    refine ⟨hd, List.nodup_singleton _, ?_⟩
    intro a ha b hb hab
    rw [List.mem_singleton] at hb
    subst hb hab
    exact h ha

theorem mem_insertPoint {points : List Point} {p q : Point} (h : q ∈ insertPoint points p) :
    q = p ∨ q ∈ points := by
  induction points with
  | nil =>
    left
    simpa [insertPoint] using h
  | cons r rest ih =>
    unfold insertPoint at h
    split at h
    · rcases List.mem_cons.1 h with h | h
      · exact Or.inl h
      · exact Or.inr (List.mem_cons_of_mem _ h)
    · rcases List.mem_cons.1 h with h | h
      · exact Or.inr (h ▸ List.mem_cons_self)
      · rcases ih h with h | h
        · exact Or.inl h
        · exact Or.inr (List.mem_cons_of_mem _ h)

@[simp] theorem overlay_nil (old : List Point) : overlay old [] = old := rfl

@[simp] theorem overlay_cons (old new : List Point) (p : Point) :
    overlay old (p :: new) = overlay (insertPoint old p) new := rfl

theorem overlay_append (old new more : List Point) :
    overlay old (new ++ more) = overlay (overlay old new) more := by
  simp [overlay, List.foldl_append]

theorem points_upsert (c : Collection) (ps : List Point) :
    (c.upsert ps).points = overlay c.points ps := rfl

/-- After writing, an id holds the last new point of that id, else what it held before. -/
theorem pointAt_overlay (old new : List Point) (id : PointId) :
    pointAt (overlay old new) id = (pointAt new.reverse id).or (pointAt old id) := by
  induction new generalizing old with
  | nil => simp [pointAt]
  | cons p rest ih =>
    rw [overlay_cons, ih, pointAt_insertPoint]
    simp only [pointAt, List.reverse_cons, List.find?_append, List.find?_cons, List.find?_nil]
    cases List.find? (fun q => decide (q.id = id)) rest.reverse with
    | some q => simp
    | none => by_cases h : p.id = id <;> simp [h]

theorem distinctIds_overlay {old : List Point} (hd : DistinctIds old) (new : List Point) :
    DistinctIds (overlay old new) := by
  induction new generalizing old with
  | nil => exact hd
  | cons p rest ih => exact ih (distinctIds_insertPoint hd p)

theorem mem_overlay {old new : List Point} {q : Point} (h : q ∈ overlay old new) :
    q ∈ new ∨ q ∈ old := by
  induction new generalizing old with
  | nil => exact Or.inr h
  | cons p rest ih =>
    rcases ih h with h | h
    · exact Or.inl (List.mem_cons_of_mem _ h)
    · rcases mem_insertPoint h with rfl | h
      · exact Or.inl List.mem_cons_self
      · exact Or.inr h

theorem mem_insertPoint_of_ne {points : List Point} {p q : Point} (hq : q ∈ points)
    (h : q.id ≠ p.id) : q ∈ insertPoint points p := by
  induction points with
  | nil => cases hq
  | cons r rest ih =>
    unfold insertPoint
    rcases List.mem_cons.1 hq with rfl | hq
    · rw [if_neg h]
      exact List.mem_cons_self
    · split
      · exact List.mem_cons_of_mem _ hq
      · exact List.mem_cons_of_mem _ (ih hq)

/-- A point whose id is not written stays as it is. -/
theorem mem_overlay_of_not_written {old new : List Point} {p : Point} (hp : p ∈ old)
    (h : ∀ q ∈ new, q.id ≠ p.id) : p ∈ overlay old new := by
  induction new generalizing old with
  | nil => exact hp
  | cons q rest ih =>
    exact ih (mem_insertPoint_of_ne hp (Ne.symm (h q List.mem_cons_self)))
      fun q' hq' => h q' (List.mem_cons_of_mem _ hq')

/-- No id that was stored gets lost by writing. -/
theorem exists_id_overlay {old : List Point} {p : Point} (hp : p ∈ old) (new : List Point) :
    ∃ q ∈ overlay old new, q.id = p.id := by
  cases h : pointAt (overlay old new) p.id with
  | some q => exact ⟨q, pointAt_eq_some h⟩
  | none =>
    rw [pointAt_overlay, Option.or_eq_none_iff] at h
    exact absurd rfl (pointAt_eq_none_iff.1 h.2 p hp)

/-- An id that is written holds one of the new points. -/
theorem exists_new_overlay (old : List Point) {new : List Point} {p : Point} (hp : p ∈ new) :
    ∃ q ∈ overlay old new, q ∈ new ∧ q.id = p.id := by
  cases h : pointAt new.reverse p.id with
  | none => exact absurd rfl (pointAt_eq_none_iff.1 h p (List.mem_reverse.2 hp))
  | some q =>
    have hq := pointAt_eq_some h
    have ho : pointAt (overlay old new) p.id = some q := by
      rw [pointAt_overlay, h, Option.some_or]
    exact ⟨q, (pointAt_eq_some ho).1, List.mem_reverse.1 hq.1, hq.2⟩

/-- Writing under ids that are stored leaves the ids in their order. -/
theorem ids_overlay {old new : List Point} (h : ∀ p ∈ new, p.id ∈ old.map (·.id)) :
    (overlay old new).map (·.id) = old.map (·.id) := by
  induction new generalizing old with
  | nil => rfl
  | cons p rest ih =>
    have hids : (insertPoint old p).map (·.id) = old.map (·.id) := by
      rw [ids_insertPoint, if_pos (h p List.mem_cons_self)]
    rw [overlay_cons, ih, hids]
    intro q hq
    rw [hids]
    exact h q (List.mem_cons_of_mem _ hq)

/-- Points are told by their ids in order and by what each id holds. -/
theorem map_eq_of_pointAt {β : Type} {points points' : List Point} (f : Point → β)
    (hd : DistinctIds points) (hids : points'.map (·.id) = points.map (·.id))
    (h : ∀ id, (pointAt points' id).map f = (pointAt points id).map f) :
    points'.map f = points.map f := by
  have hread : ∀ l : List Point, DistinctIds l →
      l.map f = (l.map (·.id)).filterMap fun id => (pointAt l id).map f := by
    intro l hl
    rw [List.filterMap_map, ← List.filterMap_eq_map]
    apply List.filterMap_congr
    intro p hp
    simp [(mem_iff_pointAt hl p).1 hp]
  have hd' : DistinctIds points' := by
    unfold DistinctIds
    rw [hids]
    exact hd
  rw [hread points hd, hread points' hd', hids]
  simp only [h]

/-! ## Deleting -/

theorem points_delete (c : Collection) (ids : List PointId) :
    (c.delete ids).points = without c.points ids := rfl

@[simp] theorem without_nil (points : List Point) : without points [] = points := by
  simp [without]

theorem mem_without {points : List Point} {ids : List PointId} {p : Point} :
    p ∈ without points ids ↔ p ∈ points ∧ p.id ∉ ids := by
  simp [without]

theorem without_congr (points : List Point) {ids ids' : List PointId} (h : ∀ id, id ∈ ids ↔ id ∈ ids') :
    without points ids = without points ids' := by
  unfold without
  apply List.filter_congr
  intro p _
  simp [h p.id]

theorem pointAt_without (points : List Point) (ids : List PointId) (id : PointId) :
    pointAt (without points ids) id = if id ∈ ids then none else pointAt points id := by
  induction points with
  | nil => simp [without, pointAt]
  | cons p rest ih =>
    unfold pointAt without at ih ⊢
    by_cases hp : p.id ∈ ids
    · rw [List.filter_cons_of_neg (by simpa using hp), ih]
      by_cases hi : id ∈ ids
      · simp [hi]
      · have hne : ¬ p.id = id := fun h => hi (h ▸ hp)
        simp [hi, hne]
    · rw [List.filter_cons_of_pos (by simpa using hp), List.find?_cons, List.find?_cons, ih]
      by_cases hi : p.id = id
      · subst hi
        simp [hp]
      · simp [hi]

theorem distinctIds_without {points : List Point} (hd : DistinctIds points) (ids : List PointId) :
    DistinctIds (without points ids) :=
  hd.sublist (List.filter_sublist.map _)

end CodeAtlas.Collection
