import CodeAtlas.Proofs.Store.Batches
import CodeAtlas.Store.Index
import Mathlib.Data.List.Chain

/-!
# Packing loses nothing and splits no file

Grouping brings the items of one file together, and packing cuts the groups into runs (`Runs`): a
run is over the size only if it is one group, and a run ends only where the next group does not fit
any more. So batches keep every item once, hold whole files and are as full as they can be:

    batches? (VectorIndex.make collection size).batchSize items = some batches →
      Packed (max 1 size).toNat items batches                              (items_packed_by_file)
-/

namespace CodeAtlas.Batch

section
variable {κ κ' α : Type} [DecidableEq κ] [DecidableEq κ']

/-! ## Groups -/

theorem addTo_map {f : κ → κ'} (hf : Function.Injective f) (groups : List (κ × List α)) (k : κ)
    (a : α) : addTo (groups.map fun g => (f g.1, g.2)) (f k) a =
      (addTo groups k a).map fun g => (f g.1, g.2) := by
  induction groups with
  | nil => rfl
  | cons g rest ih =>
    obtain ⟨k', as⟩ := g
    by_cases hk : k' = k
    · simp [addTo, hk]
    · simp [addTo, hk, hf.ne hk, ih]

/-- Keys that are told apart give the same groups under other names. -/
theorem group_map {f : κ → κ'} (hf : Function.Injective f) (keyed : List (κ × α)) :
    group (keyed.map fun ka => (f ka.1, ka.2)) = (group keyed).map fun g => (f g.1, g.2) := by
  have run : ∀ (keyed : List (κ × α)) (groups : List (κ × List α)),
      (keyed.map fun ka => (f ka.1, ka.2)).foldl (fun gs ka => addTo gs ka.1 ka.2)
        (groups.map fun g => (f g.1, g.2)) =
      (keyed.foldl (fun gs ka => addTo gs ka.1 ka.2) groups).map fun g => (f g.1, g.2) := by
    intro keyed
    induction keyed with
    | nil => intro groups; rfl
    | cons ka rest ih =>
      intro groups
      rw [List.map_cons, List.foldl_cons, List.foldl_cons, addTo_map hf, ih]
  exact run keyed []

/-- The keys of groups are those that come up, in the order of their first element. -/
theorem keys_group (keyed : List (κ × α)) :
    (group keyed).map (·.1) = (keyed.map (·.1)).eraseDups := by
  have run : ∀ (keyed before : List (κ × α)) (groups : List (κ × List α)),
      groups.map (·.1) = (before.map (·.1)).eraseDups →
      (keyed.foldl (fun gs ka => addTo gs ka.1 ka.2) groups).map (·.1) =
        ((before ++ keyed).map (·.1)).eraseDups := by
    intro keyed
    induction keyed with
    | nil => intro before groups h; simpa using h
    | cons ka rest ih =>
      intro before groups h
      rw [List.append_cons, List.foldl_cons]
      refine ih _ _ ?_
      rw [keys_addTo, h, List.map_append, List.eraseDups_append]
      by_cases hk : ka.1 ∈ before.map (·.1)
      · rw [if_pos (List.mem_eraseDups.2 hk)]
        simp [List.removeAll, hk]
      · rw [if_neg (fun h => hk (List.mem_eraseDups.1 h))]
        simp [List.removeAll, hk, List.eraseDups_cons]
  exact run keyed [] [] rfl

theorem perm_addTo (groups : List (κ × List α)) (k : κ) (a : α) :
    ((addTo groups k a).map (·.2)).flatten.Perm ((groups.map (·.2)).flatten ++ [a]) := by
  induction groups with
  | nil => exact .refl _
  | cons g rest ih =>
    obtain ⟨k', as⟩ := g
    by_cases hk : k' = k
    · simp only [addTo, hk, if_true, List.map_cons, List.flatten_cons, List.append_assoc]
      exact List.perm_append_comm.append_left as
    · simp only [addTo, hk, if_false, List.map_cons, List.flatten_cons, List.append_assoc]
      exact ih.append_left as

/-- Grouping loses no element and doubles none. -/
theorem perm_group (keyed : List (κ × α)) :
    ((group keyed).map (·.2)).flatten.Perm (keyed.map (·.2)) := by
  have run : ∀ (keyed : List (κ × α)) (groups : List (κ × List α)),
      ((keyed.foldl (fun gs ka => addTo gs ka.1 ka.2) groups).map (·.2)).flatten.Perm
        ((groups.map (·.2)).flatten ++ keyed.map (·.2)) := by
    intro keyed
    induction keyed with
    | nil => intro groups; simp
    | cons ka rest ih =>
      intro groups
      refine (ih _).trans ?_
      rw [List.map_cons, List.append_cons]
      exact (perm_addTo groups ka.1 ka.2).append_right _
  exact run keyed []

/-! ## Runs -/

theorem pack_of_over {size : Nat} {batch g : List α} (gs : List (List α)) (hb : batch ≠ [])
    (h : size < batch.length + g.length) :
    pack size batch (g :: gs) = batch :: pack size g gs := by
  rw [pack, if_pos (by simpa [hb] using h)]

theorem pack_of_fits {size : Nat} {batch g : List α} (gs : List (List α))
    (h : batch.length + g.length ≤ size) : pack size batch (g :: gs) = pack size (batch ++ g) gs := by
  rw [pack, if_neg (by simp only [Bool.and_eq_true, decide_eq_true_eq]; omega)]

/-- Groups cut into runs: a run that is over the size is one group, and the first group of a run does
not fit into the run before. -/
structure Runs (size : Nat) (groups : List (List α)) (runs : List (List (List α))) : Prop where
  whole : runs.flatten = groups
  filled : ∀ run ∈ runs, run ≠ []
  single : ∀ run ∈ runs, size < run.flatten.length → ∃ g, run = [g]
  greedy : runs.IsChain fun run next => ∀ g ∈ next.head?, size < run.flatten.length + g.length

/-- Packing on from a batch extends the run that the batch is made of. -/
theorem exists_runs_from (size : Nat) {groups : List (List α)} (hne : ∀ g ∈ groups, g ≠ [])
    (run : List (List α)) (hrun : run.flatten ≠ [])
    (hsingle : size < run.flatten.length → ∃ g, run = [g]) :
    ∃ more rest, pack size run.flatten groups = ((run ++ more) :: rest).map List.flatten ∧
      Runs size (run ++ groups) ((run ++ more) :: rest) := by
  have hfilled : run ≠ [] := by
    rintro rfl
    exact hrun rfl
  induction groups generalizing run with
  | nil =>
    refine ⟨[], [], ?_, ?_⟩
    · simp [pack, hrun]
    · rw [List.append_nil]
      refine ⟨by simp, ?_, ?_, .singleton _⟩
      · exact List.forall_mem_singleton.2 hfilled
      · exact List.forall_mem_singleton.2 hsingle
  | cons g gs ih =>
    have hgs : ∀ g' ∈ gs, g' ≠ [] := fun g' hg' => hne g' (List.mem_cons_of_mem _ hg')
    by_cases hover : size < run.flatten.length + g.length
    · obtain ⟨more, rest, hpack, hruns⟩ := ih hgs [g]
        (by simpa using hne g List.mem_cons_self) (fun _ => ⟨g, rfl⟩) (List.cons_ne_nil _ _)
      refine ⟨[], ([g] ++ more) :: rest, ?_, ?_⟩
      · rw [List.append_nil, List.map_cons, ← hpack, pack_of_over gs hrun hover, List.flatten_singleton]
      · rw [List.append_nil]
        refine ⟨?_, ?_, ?_, ?_⟩
        · rw [List.flatten_cons, hruns.whole]
          rfl
        · exact List.forall_mem_cons.2 ⟨hfilled, hruns.filled⟩
        · exact List.forall_mem_cons.2 ⟨hsingle, hruns.single⟩
        · refine List.isChain_cons_cons.2 ⟨fun g' hg' => ?_, hruns.greedy⟩
          cases hg'
          exact hover
    · have hsum : (run ++ [g]).flatten = run.flatten ++ g := by simp
      have hlen : ¬ size < (run ++ [g]).flatten.length := by
        rw [hsum, List.length_append]
        omega
      obtain ⟨more, rest, hpack, hruns⟩ := ih hgs (run ++ [g]) (by simp [hrun])
        (fun h => absurd h hlen) (by simp)
      refine ⟨g :: more, rest, ?_, ?_⟩
      · rw [List.append_cons, ← hpack, hsum, pack_of_fits gs (Nat.le_of_not_lt hover)]
      · rw [List.append_cons run g gs, List.append_cons run g more]
        exact hruns

/-- Batches are runs of the groups. -/
theorem exists_runs (size : Nat) {groups : List (List α)} (hne : ∀ g ∈ groups, g ≠ []) :
    ∃ runs, pack size [] groups = runs.map List.flatten ∧ Runs size groups runs := by
  cases groups with
  | nil => exact ⟨[], rfl, rfl, nofun, nofun, .nil⟩
  | cons g gs =>
    obtain ⟨more, rest, hpack, hruns⟩ := exists_runs_from size
      (fun g' hg' => hne g' (List.mem_cons_of_mem _ hg')) [g] (by simpa using hne g List.mem_cons_self)
      (fun _ => ⟨g, rfl⟩)
    refine ⟨_, ?_, hruns⟩
    rw [← hpack]
    simp [pack]

end

/-! ## Items -/

/-- The file of an item, empty if it names none. -/
def fileOf (item : IndexItem) : Text :=
  ((item.metadata.get? "file_path").bind Value.text?).getD ""

/-- The file of an item is a text, if it names one. -/
def NamesFile (item : IndexItem) : Prop :=
  ∀ v, item.metadata.get? "file_path" = some v → ∃ file, v = .text file

/-- Batches that keep every item once, the items of a file together and in order, the files in the
order in which they come up. No file is in two batches, a batch over the size is of one file, and no
batch has room for the items with which the next one begins. -/
structure Packed (size : Nat) (items : List IndexItem) (batches : List (List IndexItem)) : Prop where
  filled : ∀ batch ∈ batches, batch ≠ []
  grouped : batches.flatten =
    (items.map fileOf).eraseDups.flatMap fun file => items.filter (fileOf · = file)
  perm : batches.flatten.Perm items
  unsplit : batches.Pairwise fun b c => ∀ x ∈ b, ∀ y ∈ c, fileOf x ≠ fileOf y
  single : ∀ batch ∈ batches, size < batch.length → ∀ x ∈ batch, ∀ y ∈ batch, fileOf x = fileOf y
  greedy : batches.IsChain fun batch next => ∀ x ∈ next.head?,
    size < batch.length + (next.filter (fileOf · = fileOf x)).length

theorem groupKey?_of_namesFile {item : IndexItem} (h : NamesFile item) :
    groupKey? item = some (.text (fileOf item)) := by
  unfold groupKey? fileOf
  cases hv : item.metadata.get? "file_path" with
  | none => rfl
  | some v =>
    obtain ⟨file, rfl⟩ := h v hv
    rfl

/-- The items of each file, the files in the order in which they come up. -/
def byFile (items : List IndexItem) : List (Text × List IndexItem) :=
  group (items.map fun item => (fileOf item, item))

theorem batches?_eq_pack (size : Nat) {items : List IndexItem} (h : ∀ item ∈ items, NamesFile item) :
    batches? size items = some (pack size [] ((byFile items).map (·.2))) := by
  have hkeyed : items.mapM (fun item => (groupKey? item).map (·, item)) =
      some (items.map fun item => (GroupKey.text (fileOf item), item)) := by
    induction items with
    | nil => rfl
    | cons item rest ih =>
      rw [List.mapM_cons, groupKey?_of_namesFile (h item List.mem_cons_self),
        ih fun i hi => h i (List.mem_cons_of_mem _ hi)]
      rfl
  have hgroup := group_map (f := GroupKey.text) (fun _ _ heq => GroupKey.text.inj heq)
    (items.map fun item => (fileOf item, item))
  rw [List.map_map] at hgroup
  rw [batches?_eq, hkeyed]
  show some (pack size [] ((group _).map (·.2))) = _
  rw [show (items.map fun item => (GroupKey.text (fileOf item), item)) =
    items.map ((fun ka : Text × IndexItem => (GroupKey.text ka.1, ka.2)) ∘
      fun item => (fileOf item, item)) from rfl, hgroup, List.map_map]
  rfl

section
variable {items : List IndexItem}

theorem files_byFile (items : List IndexItem) :
    (byFile items).map (·.1) = (items.map fileOf).eraseDups := by
  rw [byFile, keys_group, List.map_map]
  rfl

theorem eq_filter_of_mem_byFile {g : Text × List IndexItem} (h : g ∈ byFile items) :
    g.2 = items.filter (fileOf · = g.1) := by
  rw [(grouped_group _).elements g h, List.filter_map, List.map_map]
  exact List.map_id _

theorem fileOf_of_mem_byFile {g : Text × List IndexItem} (h : g ∈ byFile items) :
    ∀ x ∈ g.2, fileOf x = g.1 := by
  intro x hx
  rw [eq_filter_of_mem_byFile h] at hx
  exact of_decide_eq_true (List.mem_filter.1 hx).2

theorem ne_nil_of_mem_byFile {g : Text × List IndexItem} (h : g ∈ byFile items) : g.2 ≠ [] := by
  have hfile : g.1 ∈ (items.map fileOf).eraseDups := files_byFile items ▸ List.mem_map_of_mem h
  obtain ⟨item, hitem, hg⟩ := List.mem_map.1 (List.mem_eraseDups.1 hfile)
  rw [eq_filter_of_mem_byFile h]
  exact List.ne_nil_of_mem (List.mem_filter.2 ⟨hitem, by simpa using hg⟩)

theorem pairwise_byFile (items : List IndexItem) : ((byFile items).map (·.2)).Pairwise fun l m =>
    ∀ x ∈ l, ∀ y ∈ m, fileOf x ≠ fileOf y := by
  have hne : (byFile items).Pairwise fun g h => g.1 ≠ h.1 :=
    List.pairwise_map.1 (grouped_group _).nodup
  rw [List.pairwise_map]
  refine hne.imp_of_mem fun hg hh hgh x hx y hy => ?_
  rw [fileOf_of_mem_byFile hg x hx, fileOf_of_mem_byFile hh y hy]
  exact hgh

/-- Runs of the items of whole files are well packed. -/
theorem packed_of_runs {size : Nat} {runs : List (List (List IndexItem))}
    (h : Runs size ((byFile items).map (·.2)) runs) : Packed size items (runs.map List.flatten) := by
  have hflat : (runs.map List.flatten).flatten = ((byFile items).map (·.2)).flatten := by
    rw [← List.flatten_flatten, h.whole]
  have hgroup : ∀ run ∈ runs, ∀ g ∈ run, ∃ kg ∈ byFile items, kg.2 = g := by
    intro run hrun g hg
    have hmem : g ∈ runs.flatten := List.mem_flatten.2 ⟨run, hrun, hg⟩
    rw [h.whole] at hmem
    exact List.mem_map.1 hmem
  have hne : ∀ run ∈ runs, ∀ g ∈ run, g ≠ [] := by
    intro run hrun g hg
    obtain ⟨kg, hkg, rfl⟩ := hgroup run hrun g hg
    exact ne_nil_of_mem_byFile hkg
  have hone : ∀ run ∈ runs, ∀ g ∈ run, ∀ x ∈ g, ∀ y ∈ g, fileOf x = fileOf y := by
    intro run hrun g hg x hx y hy
    obtain ⟨kg, hkg, rfl⟩ := hgroup run hrun g hg
    rw [fileOf_of_mem_byFile hkg x hx, fileOf_of_mem_byFile hkg y hy]
  refine ⟨?_, ?_, ?_, ?_, ?_, ?_⟩
  · rintro _ hbatch
    obtain ⟨run, hrun, rfl⟩ := List.mem_map.1 hbatch
    obtain ⟨g, hg⟩ := List.exists_mem_of_ne_nil run (h.filled run hrun)
    exact fun hnil => hne run hrun g hg (List.flatten_eq_nil_iff.1 hnil g hg)
  · rw [hflat, ← files_byFile, List.flatMap_map, List.flatMap_def]
    exact congrArg List.flatten (List.map_congr_left fun g hg => eq_filter_of_mem_byFile hg)
  · rw [hflat]
    have hperm := perm_group (items.map fun item => (fileOf item, item))
    rwa [List.map_map, show ((fun ka : Text × IndexItem => ka.2) ∘
      fun item => (fileOf item, item)) = id from rfl, List.map_id] at hperm
  · have hpair := pairwise_byFile items
    rw [← h.whole, List.pairwise_flatten] at hpair
    refine List.pairwise_map.2 (hpair.2.imp fun hrs x hx y hy => ?_)
    obtain ⟨l, hl, hx⟩ := List.mem_flatten.1 hx
    obtain ⟨m, hm, hy⟩ := List.mem_flatten.1 hy
    exact hrs l hl m hm x hx y hy
  · rintro _ hbatch hover
    obtain ⟨run, hrun, rfl⟩ := List.mem_map.1 hbatch
    obtain ⟨g, rfl⟩ := h.single run hrun hover
    rw [List.flatten_singleton]
    exact hone _ hrun g List.mem_cons_self
  · refine (List.isChain_map _).2 (h.greedy.imp_of_mem_imp fun run next hrun hnext hlarge x hx => ?_)
    obtain ⟨g, rest, rfl⟩ := List.exists_cons_of_ne_nil (h.filled next hnext)
    obtain ⟨y, ys, rfl⟩ := List.exists_cons_of_ne_nil (hne _ hnext g List.mem_cons_self)
    obtain rfl : y = x := Option.some.inj hx
    -- the batch begins with all items of its first file
    have hall : (y :: ys).filter (fileOf · = fileOf y) = y :: ys :=
      List.filter_eq_self.2 fun x hx =>
        decide_eq_true (hone _ hnext _ List.mem_cons_self x hx y List.mem_cons_self)
    have hfirst := hlarge (y :: ys) rfl
    rw [List.flatten_cons, List.filter_append, hall, List.length_append]
    omega

end

/-- Items are packed file by file: nothing is lost or doubled, no file is split, and batches are
filled as long as the next file fits. A batch size below one counts as one. -/
theorem items_packed_by_file (collection : Value) (size : Int) {items : List IndexItem}
    (h : ∀ item ∈ items, NamesFile item) :
    ∃ batches, batches? (VectorIndex.make collection size).batchSize items = some batches ∧
      Packed (max 1 size).toNat items batches := by
  have hne : ∀ g ∈ (byFile items).map (·.2), g ≠ [] := by
    intro g hg
    obtain ⟨kg, hkg, rfl⟩ := List.mem_map.1 hg
    exact ne_nil_of_mem_byFile hkg
  obtain ⟨runs, hpack, hruns⟩ := exists_runs (max 1 size).toNat hne
  refine ⟨runs.map List.flatten, ?_, packed_of_runs hruns⟩
  rw [batches?_eq_pack _ h, ← hpack]
  rfl

namespace Sample

def item (id : Text) (metadata : Fields) : IndexItem := ⟨id, [1], metadata⟩

/-- Items of two files and of none, mixed. -/
def mixed : List IndexItem := [
  item "1" [("file_path", .text "b.py")], item "2" [], item "3" [("file_path", .text "a.py")],
  item "4" [("file_path", .text "b.py")], item "5" [("file_path", .text "")],
  item "6" [("file_path", .text "b.py")]]

end Sample

/-- A file over the size has a batch of its own, and items without a file are one group with those
of the empty name. -/
theorem mixed_items_packed : (∀ item ∈ Sample.mixed, NamesFile item) ∧
    ∃ batches, batches? (VectorIndex.make .null (-3)).batchSize Sample.mixed = some batches ∧
      batches.map (·.map (·.id)) = ([["1", "4", "6"], ["2", "5"], ["3"]] : List (List Text)) ∧
      Packed (max 1 (-3 : Int)).toNat Sample.mixed batches := by
  have hnames : ∀ item ∈ Sample.mixed, NamesFile item := by
    simp [Sample.mixed, Sample.item, NamesFile, Fields.get?_cons]
  obtain ⟨batches, hbatches, hpacked⟩ := items_packed_by_file .null (-3) hnames
  refine ⟨hnames, batches, hbatches, ?_, hpacked⟩
  have hids : (batches? (VectorIndex.make .null (-3)).batchSize Sample.mixed).map
      (·.map (·.map (·.id))) = some ([["1", "4", "6"], ["2", "5"], ["3"]] : List (List Text)) := by
    decide
  rw [hbatches] at hids
  exact Option.some.inj hids

end CodeAtlas.Batch
