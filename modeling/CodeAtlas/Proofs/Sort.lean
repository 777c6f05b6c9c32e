import CodeAtlas.Sort
import Mathlib.Data.List.Sort

/-!
# A sorted list

`sortBy` is the insertion sort of the library, for an order that is given as a test.
-/

namespace CodeAtlas

variable {α β : Type _} {le : α → α → Bool}

theorem insertBy_eq_orderedInsert (a : α) (l : List α) :
    insertBy le a l = l.orderedInsert (fun x y => le x y) a := by
  induction l with
  | nil => rfl
  | cons b l ih => simp only [insertBy, List.orderedInsert_cons, ih]

theorem sortBy_eq_insertionSort (l : List α) :
    sortBy le l = l.insertionSort fun x y => le x y := by
  induction l with
  | nil => rfl
  | cons a l ih => rw [sortBy, insertBy_eq_orderedInsert, ih, List.insertionSort_cons]

theorem perm_sortBy (l : List α) (le : α → α → Bool) : (sortBy le l).Perm l :=
  sortBy_eq_insertionSort l ▸ List.perm_insertionSort _ l

@[simp]
theorem length_sortBy (l : List α) : (sortBy le l).length = l.length := (perm_sortBy l le).length_eq

@[simp]
theorem mem_sortBy {l : List α} {a : α} : a ∈ sortBy le l ↔ a ∈ l := (perm_sortBy l le).mem_iff

theorem sortBy_of_pairwise {l : List α} (h : l.Pairwise fun a b => le a b) : sortBy le l = l := by
  rw [sortBy_eq_insertionSort, h.insertionSort_eq]

theorem map_sortBy {f : α → β} {ge : β → β → Bool} {l : List α}
    (h : ∀ a ∈ l, ∀ b ∈ l, le a b = ge (f a) (f b)) :
    (sortBy le l).map f = sortBy ge (l.map f) := by
  rw [sortBy_eq_insertionSort, sortBy_eq_insertionSort]
  exact List.map_insertionSort _ _ f l fun a ha b hb => by rw [h a ha b hb]

section Preorder

variable (trans : ∀ a b c, le a b → le b c → le a c) (total : ∀ a b, le a b || le b a)

include trans total in
theorem pairwise_sortBy (l : List α) : (sortBy le l).Pairwise fun a b => le a b := by
  have : Std.Total fun a b => le a b = true := ⟨fun a b => Bool.or_eq_true .. ▸ total a b⟩
  have : IsTrans α fun a b => le a b = true := ⟨trans⟩
  rw [sortBy_eq_insertionSort]
  exact List.pairwise_insertionSort _ l

include trans total in
/-- The sort is stable: elements that are in order keep theirs. -/
theorem sublist_sortBy {l ordered : List α} (hp : ordered.Pairwise fun a b => le a b)
    (hs : ordered.Sublist l) : ordered.Sublist (sortBy le l) := by
  have : Std.Total fun a b => le a b = true := ⟨fun a b => Bool.or_eq_true .. ▸ total a b⟩
  have : IsTrans α fun a b => le a b = true := ⟨trans⟩
  rw [sortBy_eq_insertionSort]
  exact List.sublist_insertionSort hp hs

end Preorder

end CodeAtlas
