import CodeAtlas.Proofs.Store.Faultless
import Mathlib.Data.Set.Function

/-!
# The last write

A write sends its items file by file, the files in the order in which they come up. Of the items with
one id, the last that is sent is the last one of the file that comes up last (`Remains`), and the id
holds it afterwards. It is the last item of the list with this id if and only if no other item with
the id is of a file that comes up later.

    pointAt c'.points (PointId.ofKey id) = some (pointOf last) ↔
      ∀ b ∈ items, b.id = id → place items (groupKey? b) ≤ place items (groupKey? last)
                                                                       (upsert_keeps_last_sent)
-/

namespace CodeAtlas.VectorIndex

open Client Collection
open Batch (place groupKey?)

variable {items : List IndexItem} {batches : List (List IndexItem)} {size : Nat} {id : Text}
  {a b : IndexItem}

/-- Of the items with an id, the one that is sent last: the last of its file, which comes up last. -/
structure Remains (items : List IndexItem) (id : Text) (a : IndexItem) : Prop where
  last : items.reverse.find? (fun b => b.id = id ∧ groupKey? b = groupKey? a) = some a
  latest : ∀ b ∈ items, b.id = id → place items (groupKey? b) ≤ place items (groupKey? a)

/-- What is found first is found first among fewer, too. -/
theorem find?_of_imp {α : Type} {p q : α → Bool} {l : List α} {a : α} (h : l.find? p = some a)
    (hq : q a = true) (himp : ∀ x, q x = true → p x = true) : l.find? q = some a := by
  obtain ⟨-, before, after, hl, hbefore⟩ := List.find?_eq_some_iff_append.1 h
  refine List.find?_eq_some_iff_append.2 ⟨hq, before, after, hl, fun x hx => ?_⟩
  have hx' := hbefore x hx
  rw [Bool.not_eq_true'] at hx' ⊢
  exact Bool.eq_false_iff.2 fun hqx => by rw [himp x hqx] at hx'; cases hx'

theorem Remains.mem (h : Remains items id a) : a ∈ items ∧ a.id = id := by
  have hfound := List.find?_some h.last
  exact ⟨List.mem_reverse.1 (List.mem_of_find?_eq_some h.last), (of_decide_eq_true hfound).1⟩

/-- Only one item remains. -/
theorem Remains.unique (ha : Remains items id a) (hb : Remains items id b) : a = b := by
  have hplace : place items (groupKey? a) = place items (groupKey? b) :=
    Nat.le_antisymm (hb.latest a ha.mem.1 ha.mem.2) (ha.latest b hb.mem.1 hb.mem.2)
  have hkey : groupKey? a = groupKey? b :=
    (List.idxOf_inj (List.mem_map_of_mem ha.mem.1)).1 hplace
  have hlast := ha.last
  rw [hkey, hb.last] at hlast
  exact (Option.some.inj hlast).symm

/-- The item with an id that stands last in the batches remains. -/
theorem remains_of_batches (hb : Batch.batches? size items = some batches)
    (h : batches.flatten.reverse.find? (·.id = id) = some a) : Remains items id a := by
  constructor
  · have hfilter := Batch.filter_batches hb
      (P := fun b => decide (b.id = id ∧ groupKey? b = groupKey? a)) (by
        intro x _ y _ hx hy
        exact (of_decide_eq_true hx).2.trans (of_decide_eq_true hy).2.symm)
    have hid : a.id = id := by simpa using List.find?_some h
    rw [← List.getLast?_filter, ← hfilter, List.getLast?_filter]
    exact find?_of_imp h (by simpa using hid) fun x hx => by simpa using (of_decide_eq_true hx).1
  · intro b hbi hbid
    obtain ⟨-, after, before, hl, hafter⟩ := List.find?_eq_some_iff_append.1 h
    have hflat : batches.flatten = before.reverse ++ a :: after.reverse := by
      rw [← List.reverse_reverse batches.flatten, hl]
      simp
    have horder := Batch.pairwise_batches hb
    rw [hflat, List.pairwise_append] at horder
    have hmem : b ∈ before.reverse ++ a :: after.reverse := hflat ▸ (Batch.mem_batches hb).2 hbi
    rcases List.mem_append.1 hmem with hbefore | hrest
    · exact horder.2.2 b hbefore a List.mem_cons_self
    · rcases List.mem_cons.1 hrest with rfl | hlater
      · exact Nat.le_refl _
      · have hnot := hafter b (List.mem_reverse.1 hlater)
        simp [hbid] at hnot

/-- The last item with an id remains if its file comes up last. -/
theorem remains_last_iff {last : IndexItem} (h : items.reverse.find? (·.id = id) = some last) :
    Remains items id last ↔
      ∀ b ∈ items, b.id = id → place items (groupKey? b) ≤ place items (groupKey? last) := by
  refine ⟨Remains.latest, fun hlatest => ⟨?_, hlatest⟩⟩
  have hid : last.id = id := by simpa using List.find?_some h
  exact find?_of_imp h (by simpa using hid) fun x hx => by simpa using (of_decide_eq_true hx).1

/-- A point tells the file of its item. -/
theorem groupKey?_of_pointOf_eq (h : pointOf a = pointOf b) : groupKey? a = groupKey? b := by
  have hfile := congrArg (fun p : Point => p.payload.get? "file_path") h
  dsimp only [pointOf] at hfile
  rw [Fields.get?_set, Fields.get?_set, if_neg (by decide), if_neg (by decide)] at hfile
  rw [groupKey?, groupKey?, hfile]

section

variable {c : Client} {ids : Set Text}

/-- Without faults, all items of a fitting dimension are sent. -/
theorem exists_upsert (ix : VectorIndex) (hc : c.IsFaultless) {dimension : Nat}
    (hpos : dimension ≠ 0) (hall : ∀ item ∈ items, item.vector.length = dimension)
    (hencodable : ∀ item ∈ items, item.id.encodeError? = none)
    (hfits : ∀ col, c.collection = some col → col.dimension = some dimension)
    (hb : Batch.batches? ix.batchSize items = some batches) :
    ∃ c', run (ix.upsert items) c = (.ok ⟨⟩, c') ∧
      c'.points = overlay c.points (batches.flatten.map pointOf) := by
  by_cases hne : items = []
  · subst hne
    cases hb
    exact ⟨c, rfl, rfl⟩
  · obtain ⟨c', hrun, hcol, -⟩ := (gives_upsert ix hc rfl hne hpos hall hencodable hfits hb).eq
    refine ⟨c', hrun, ?_⟩
    rw [points_eq hcol, points_upsert]
    cases hold : c.collection with
    | none => rw [points_none hold]; rfl
    | some col => rw [points_eq hold]; rfl

/-- After a write without faults, an id of the items holds the one that remains; this is the last
item of the list with the id if and only if no other is of a file that comes up later. All other ids
hold what they held. -/
theorem upsert_keeps_last_sent (ix : VectorIndex) (hc : c.IsFaultless) {dimension : Nat}
    (hpos : dimension ≠ 0) (hall : ∀ item ∈ items, item.vector.length = dimension)
    (hfits : ∀ col, c.collection = some col → col.dimension = some dimension)
    (hgroups : ∀ item ∈ items, (groupKey? item).isSome)
    (hkeys : HavePointIds ids) (hids : ∀ item ∈ items, item.id ∈ ids) :
    ∃ c', run (ix.upsert items) c = (.ok ⟨⟩, c') ∧
      (∀ id last, items.reverse.find? (·.id = id) = some last →
        (∃ a, Remains items id a ∧ pointAt c'.points (PointId.ofKey id) = some (pointOf a)) ∧
        (pointAt c'.points (PointId.ofKey id) = some (pointOf last) ↔
          ∀ b ∈ items, b.id = id → place items (groupKey? b) ≤ place items (groupKey? last))) ∧
      (∀ id ∈ ids, (∀ item ∈ items, item.id ≠ id) →
        pointAt c'.points (PointId.ofKey id) = pointAt c.points (PointId.ofKey id)) := by
  obtain ⟨batches, hb⟩ := Batch.exists_batches ix.batchSize hgroups
  obtain ⟨c', hrun, hpoints⟩ := exists_upsert ix hc hpos hall
    (fun item hitem => hkeys.encodable _ (hids item hitem)) hfits hb
  have hfind : ∀ id ∈ ids, pointAt c'.points (PointId.ofKey id) =
      ((batches.flatten.reverse.find? (·.id = id)).map pointOf).or
        (pointAt c.points (PointId.ofKey id)) := by
    intro id hid
    rw [hpoints, pointAt_overlay, pointAt_map_pointOf_ofKey fun item hitem heq =>
      hkeys.injOn (hids item ((Batch.mem_batches hb).1 hitem)) hid heq]
  refine ⟨c', hrun, fun id last hlast => ?_, fun id hid hnone => ?_⟩
  · have hmem := List.mem_reverse.1 (List.mem_of_find?_eq_some hlast)
    have hid : last.id = id := by simpa using List.find?_some hlast
    obtain ⟨a, ha⟩ : ∃ a, batches.flatten.reverse.find? (·.id = id) = some a := by
      rw [← Option.isSome_iff_exists, List.find?_isSome]
      exact ⟨last, List.mem_reverse.2 ((Batch.mem_batches hb).2 hmem), by simpa using hid⟩
    have hremains := remains_of_batches hb ha
    have hstored : pointAt c'.points (PointId.ofKey id) = some (pointOf a) := by
      rw [hfind id (hid ▸ hids last hmem), ha]
      rfl
    refine ⟨⟨a, hremains, hstored⟩, ?_⟩
    rw [hstored, ← remains_last_iff hlast]
    constructor
    · intro heq
      have hkey := groupKey?_of_pointOf_eq (Option.some.inj heq)
      exact (remains_last_iff hlast).2 fun b hb hbid => hkey ▸ hremains.latest b hb hbid
    · intro hlast'
      rw [hremains.unique hlast']
  · have hnot : batches.flatten.reverse.find? (·.id = id) = none := by
      rw [List.find?_eq_none]
      intro item hitem
      simpa using hnone item ((Batch.mem_batches hb).1 (List.mem_reverse.1 hitem))
    rw [hfind id hid, hnot]
    rfl

end

namespace Sample

def index : VectorIndex := .make (.text "code") 128

def item (id : Text) (vector : Embedding) (file : Text) : IndexItem :=
  ⟨id, vector, [("file_path", .text file)]⟩

/-- The last item with the id `k` is of the file that comes up last. -/
def inTurn : List IndexItem :=
  [item "k" [1, 0] "b.py", item "m" [1, 0] "a.py", item "k" [0, 1] "a.py"]

/-- The last item with the id `k` is of the file that comes up first. -/
def overtaken : List IndexItem :=
  [item "m" [1, 0] "a.py", item "k" [1, 0] "b.py", item "k" [0, 1] "a.py"]

def ids : List Text := ["m", "k"]

theorem nodup_ids : (ids.map PointId.ofKey).Nodup := by decide +kernel

theorem havePointIds : HavePointIds { id | id ∈ ids } where
  encodable := by simp [ids]
  injOn _ ha _ hb hab := List.inj_on_of_nodup_map nodup_ids ha hb hab

end Sample

/-- The last item stays if its file comes up last. -/
theorem last_item_stays : ∃ c', run (Sample.index.upsert Sample.inTurn) (.fresh (.text "code")) =
      (.ok ⟨⟩, c') ∧
    pointAt c'.points (PointId.ofKey "k") = some (pointOf (Sample.item "k" [0, 1] "a.py")) := by
  have hfaultless : (fresh (.text "code")).IsFaultless := ⟨rfl, by decide⟩
  have hids : ∀ item ∈ Sample.inTurn, item.id ∈ { id | id ∈ Sample.ids } := by decide
  have hall : ∀ item ∈ Sample.inTurn, item.vector.length = 2 := by decide
  obtain ⟨c', hrun, hlast, -⟩ := upsert_keeps_last_sent Sample.index hfaultless (by decide) hall
    nofun (by decide) Sample.havePointIds hids
  exact ⟨c', hrun, (hlast "k" _ rfl).2.2 (by decide +kernel)⟩

/-- The last item does not stay if its file has come up before another one with the id: the write
succeeds, point ids tell the ids apart, and yet the id holds an earlier item. -/
theorem earlier_item_stays :
    (run (Sample.index.upsert Sample.overtaken) (.fresh (.text "code"))).1 = .ok ⟨⟩ ∧
    (∀ item ∈ Sample.overtaken, item.id ∈ Sample.ids) ∧ (Sample.ids.map PointId.ofKey).Nodup ∧
    (Sample.overtaken.reverse.find? (·.id = ("k" : Text))).map (·.vector) = some [0, 1] ∧
    (pointAt (run (Sample.index.upsert Sample.overtaken) (.fresh (.text "code"))).2.points
      (PointId.ofKey "k")).map (·.vector) = some [1, 0] := by
  decide +kernel

end CodeAtlas.VectorIndex
