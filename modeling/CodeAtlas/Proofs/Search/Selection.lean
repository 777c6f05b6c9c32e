import CodeAtlas.Proofs.Number.Displayed
import CodeAtlas.Proofs.Sort
import CodeAtlas.Proofs.Work
import CodeAtlas.Search.Hit
import Mathlib.Data.Prod.Lex
import Mathlib.Order.Lex

/-!
# A search selects the best matches

A search shows the first matches by score, as many as the limit admits. The order is stable: it is
the one in which scores do not rise and equal ones stand as the index gave them.

* `Score.notLt_eq` turns comparisons of scores into those of a linear order (`Score.key`);
* `ranked_stableOrder`: sorting puts any matches into the stable order (`StableOrder`);
* `Embedder.recorded`, `recorded` let an embedder and an index note what they are asked.
-/

namespace CodeAtlas

/-! ## Scores as keys of a linear order -/

namespace Score

/-- The place of a score, as an element of a linear order. -/
def key (s : Score) : ℤ ×ₗ ℚ := toLex (s.place.getD (0, 0))

/-- Scores of which neither is smaller. -/
def ties (a b : Score) : Bool := !lt a b && !lt b a

theorem lt_eq_key {a b : Score} (ha : a ≠ .nan) (hb : b ≠ .nan) :
    lt a b = decide (a.key < b.key) := by
  have hplace : ∀ {s : Score}, s ≠ .nan → ∃ p, s.place = some p := by
    intro s hs
    cases s with
    | nan => exact absurd rfl hs
    | infinite negative => exact ⟨_, rfl⟩
    | finite negative square => exact ⟨_, rfl⟩
  obtain ⟨p, hp⟩ := hplace ha
  obtain ⟨q, hq⟩ := hplace hb
  rw [Bool.eq_iff_iff, decide_eq_true_iff]
  simp [lt, key, hp, hq, Prod.Lex.toLex_lt_toLex]

theorem notLt_eq {a b : Score} (ha : a ≠ .nan) (hb : b ≠ .nan) :
    (!lt a b) = decide (b.key ≤ a.key) := by
  rw [lt_eq_key ha hb, ← decide_not]
  exact decide_eq_decide.2 not_lt

theorem ties_iff {a b : Score} (ha : a ≠ .nan) (hb : b ≠ .nan) :
    ties a b = true ↔ a.key = b.key := by
  unfold ties
  rw [notLt_eq ha hb, notLt_eq hb ha, Bool.and_eq_true, decide_eq_true_iff, decide_eq_true_iff,
    and_comm]
  exact le_antisymm_iff.symm

end Score

/-! ## The stable order -/

namespace Search

/-- The matches in the order in which scores do not rise and equal ones keep their order. -/
structure StableOrder (ms sorted : List IndexMatch) : Prop where
  perm : sorted.Perm ms
  descending : sorted.Pairwise fun a b => Score.lt a.score b.score = false
  stable : ∀ m ∈ ms,
    (sorted.filter fun x => Score.ties m.score x.score) =
      ms.filter fun x => Score.ties m.score x.score

/-- Among numbers the sort is by a key. -/
theorem ranked_eq_sortBy {ms : List IndexMatch} (h : ∀ m ∈ ms, m.score ≠ .nan) :
    ranked ms = sortBy (fun a b => decide (b.score.key ≤ a.score.key)) ms := by
  have hall : (ms.all fun m => m.score != .nan) = true := by
    rw [List.all_eq_true]
    exact fun m hm => bne_iff_ne.2 (h m hm)
  unfold ranked
  rw [if_pos hall]
  have hmap : (sortBy (fun a b => !Score.lt a.score b.score) ms).map id =
      sortBy (fun a b => decide (b.score.key ≤ a.score.key)) (ms.map id) :=
    map_sortBy fun a ha b hb => Score.notLt_eq (h a ha) (h b hb)
  rwa [List.map_id, List.map_id] at hmap

/-- Matches whose scores are numbers are sorted stably. -/
theorem ranked_stableOrder {ms : List IndexMatch} (h : ∀ m ∈ ms, m.score ≠ .nan) :
    StableOrder ms (ranked ms) := by
  have htrans : ∀ a b c : IndexMatch, decide (b.score.key ≤ a.score.key) = true →
      decide (c.score.key ≤ b.score.key) = true → decide (c.score.key ≤ a.score.key) = true := by
    intro a b c hab hbc
    exact decide_eq_true ((of_decide_eq_true hbc).trans (of_decide_eq_true hab))
  have htotal : ∀ a b : IndexMatch,
      (decide (b.score.key ≤ a.score.key) || decide (a.score.key ≤ b.score.key)) = true := by
    intro a b
    rw [Bool.or_eq_true, decide_eq_true_iff, decide_eq_true_iff]
    exact le_total _ _
  rw [ranked_eq_sortBy h]
  have hperm := perm_sortBy ms fun a b => decide (b.score.key ≤ a.score.key)
  refine ⟨hperm, ?_, fun m hm => ?_⟩
  · refine (pairwise_sortBy htrans htotal ms).imp_of_mem fun {a b} ha hb hab => ?_
    rw [← Score.notLt_eq (h a (hperm.mem_iff.1 ha)) (h b (hperm.mem_iff.1 hb))] at hab
    simpa using hab
  · -- those that tie with `m` are in order already, so the sort keeps them as they are
    have hties : (ms.filter fun x => Score.ties m.score x.score).Pairwise
        fun a b => decide (b.score.key ≤ a.score.key) = true := by
      refine List.pairwise_of_forall_mem_list fun a ha b hb => ?_
      obtain ⟨ha, hma⟩ := List.mem_filter.1 ha
      obtain ⟨hb, hmb⟩ := List.mem_filter.1 hb
      rw [Score.ties_iff (h m hm) (h a ha)] at hma
      rw [Score.ties_iff (h m hm) (h b hb)] at hmb
      exact decide_eq_true (hmb ▸ hma).le
    have hsublist := (sublist_sortBy htrans htotal hties List.filter_sublist).filter
      fun x => Score.ties m.score x.score
    rw [List.filter_filter] at hsublist
    simp only [Bool.and_self] at hsublist
    exact (hsublist.eq_of_length (hperm.filter _).length_eq.symm).symm

/-- The best matches are some of the matches. -/
theorem mem_of_mem_best {limit : Int} {ms : List IndexMatch} (h : StableOrder ms (ranked ms))
    {m : IndexMatch} (hm : m ∈ best limit ms) : m ∈ ms :=
  h.perm.mem_iff.1 (List.mem_of_mem_take hm)

end Search

/-! ## What matches are shown as -/

/-- The metadata of a match are fields, unless they are missing. -/
def IndexMatch.HasFields (m : IndexMatch) : Prop :=
  m.metadata = .null ∨ ∃ fields, m.metadata = .dict fields

/-- The fields of a match; missing metadata have none. -/
def IndexMatch.fields (m : IndexMatch) : Fields :=
  match m.metadata with
  | .dict fields => fields
  | _ => []

namespace SearchHit

/-- A match as it is shown. -/
def ofFields (m : IndexMatch) : SearchHit where
  file := shown m.fields "filename" "Unknown file"
  token := shown m.fields "token" "[Unknown]"
  snippet := shown m.fields "code" "[No code]"
  score := m.score.fixed 3

theorem ofMatch_eq {m : IndexMatch} (h : m.HasFields) : ofMatch m = .ok (ofFields m) := by
  obtain ⟨id, score, metadata⟩ := m
  obtain rfl | ⟨fields, rfl⟩ : metadata = .null ∨ ∃ fields, metadata = .dict fields := h
  · rfl
  · rfl

theorem mapM_ofMatch {ms : List IndexMatch} (h : ∀ m ∈ ms, m.HasFields) :
    ms.mapM ofMatch = .ok (ms.map ofFields) := by
  apply mapM_ok_of_forall₂
  rw [List.forall₂_map_right_iff, List.forall₂_same]
  exact fun m hm => ofMatch_eq (h m hm)

end SearchHit

/-! ## What the embedder and the index are asked -/

/-- A call that notes what it is asked. -/
def recorded {σ ι α : Type} (call : ι → StateM σ α) (asked : ι) : StateM (σ × List ι) α :=
  fun (s, log) =>
    let (answer, s) := (call asked).run s
    (answer, (s, log ++ [asked]))

/-- The embedder that notes the lists of texts that it is given. -/
def Embedder.recorded {σ : Type} (e : Embedder σ) : Embedder (σ × List (List Text)) where
  reentrant := e.reentrant
  embed := CodeAtlas.recorded e.embed

/-- The index that notes the vectors that it is asked about, each with its limit. -/
def Search.recordedAsk {ρ α : Type} (ask : Embedding → Int → StateM ρ α) (v : Embedding)
    (limit : Int) : StateM (ρ × List (Embedding × Int)) α :=
  recorded (fun p : Embedding × Int => ask p.1 p.2) (v, limit)

theorem Embedder.embedOne_recorded {σ : Type} (e : Embedder σ) (text : Text) (s : σ)
    (log : List (List Text)) :
    (e.recorded.embedOne text).run (s, log) =
      (((e.embedOne text).run s).1, (((e.embedOne text).run s).2, log ++ [[text]])) := by
  rcases hrun : (e.embed [text]).run s with ⟨answer, s'⟩
  have hrecorded : (e.recorded.embed [text]).run (s, log) = (answer, (s', log ++ [[text]])) := by
    change (((e.embed [text]).run s).1, ((e.embed [text]).run s).2, log ++ [[text]]) = _
    rw [hrun]
  unfold Embedder.embedOne
  rw [StateT.run_bind, StateT.run_bind, hrecorded, hrun]
  rcases answer with f | (_ | ⟨v, vs⟩) <;> rfl

/-! ## The search -/

namespace Search

variable {σ ρ : Type} {e : Embedder σ}
  {ask : Embedding → Int → StateM ρ (Except IndexFailure (List IndexMatch))}
  {query : Text} {limit : Int}

theorem hits_of_not_asks (hasks : asks query limit = false) (state : σ × ρ) :
    (hits e ask query limit).run state = (.ok [], state) := by
  unfold hits
  rw [if_neg (by rw [hasks]; exact Bool.false_ne_true)]
  rfl

/-- A search whose embedder and index answer shows the best matches. -/
theorem hits_of_answers (hasks : asks query limit = true) {t t' : σ} {r r' : ρ} {v : Embedding}
    {ms : List IndexMatch} (hembed : (e.embedOne query).run t = (.ok v, t'))
    (hask : (ask v limit).run r = (.ok ms, r')) (hfields : ∀ m ∈ best limit ms, m.HasFields) :
    (hits e ask query limit).run (t, r) =
      (.ok ((best limit ms).map SearchHit.ofFields), (t', r')) := by
  have hquery : (embedQuery e query).run t = (.ok v, t') := by
    unfold embedQuery
    rw [StateT.run_bind, hembed]
    rfl
  unfold hits
  rw [if_pos hasks]
  simp only [StateT.run_bind, StateT.run_get, pure_bind, hquery, hask,
    SearchHit.mapM_ofMatch hfields]
  rfl

/-- The number that a hit displays as its score. -/
def displayedScore? (h : SearchHit) : Option (WithBot (WithTop ℚ)) :=
  h.score.asString.toOption.bind Decimal.read?

theorem displayedScore?_ofFields (m : IndexMatch) :
    displayedScore? (SearchHit.ofFields m) = Decimal.read? (m.score.fixed 3) := by
  have hscore : (SearchHit.ofFields m).score = m.score.fixed 3 := rfl
  rw [displayedScore?, hscore, Text.asString_ofString]
  rfl

/-- What it means that hits are the best of the matches: they show the first of them in the stable
order, as many as the limit admits, so that none left out scores higher; and read as numbers the
displayed scores do not rise either. -/
structure Selects (ms : List IndexMatch) (limit : Nat) (hits : List SearchHit)
    (sorted : List IndexMatch) : Prop where
  order : StableOrder ms sorted
  shown : hits = (sorted.take limit).map SearchHit.ofFields
  count : hits.length = min limit ms.length
  best : ∀ kept ∈ sorted.take limit, ∀ left ∈ sorted.drop limit,
    Score.lt kept.score left.score = false
  displayed : ∃ numbers : List (WithBot (WithTop ℚ)),
    hits.map displayedScore? = numbers.map some ∧ numbers.Pairwise (· ≥ ·)

theorem selects_best {ms : List IndexMatch} (h : ∀ m ∈ ms, m.score.IsNumber) (limit : Int) :
    Selects ms limit.toNat ((best limit ms).map SearchHit.ofFields) (ranked ms) := by
  have horder := ranked_stableOrder fun m hm => (h m hm).ne_nan
  have hnumber : ∀ m ∈ best limit ms, m.score.IsNumber := fun m hm =>
    h m (mem_of_mem_best horder hm)
  refine ⟨horder, rfl, ?_, ?_, (best limit ms).map fun m => m.score.displayed 3, ?_, ?_⟩
  · rw [List.length_map, best, List.length_take, horder.perm.length_eq]
  · have hsplit := horder.descending
    rw [← List.take_append_drop limit.toNat (ranked ms)] at hsplit
    exact (List.pairwise_append.1 hsplit).2.2
  · rw [List.map_map, List.map_map]
    refine List.map_congr_left fun m hm => ?_
    exact (displayedScore?_ofFields m).trans (Score.read?_fixed (by decide) (hnumber m hm).ne_nan)
  · rw [List.pairwise_map]
    refine (horder.descending.sublist (List.take_sublist _ _)).imp_of_mem fun {a b} ha hb hab => ?_
    exact Score.displayed_le 3 (hnumber a ha) (hnumber b hb) hab

/-- **A search is a stable selection of the best matches.** A query that asks for nothing calls
neither the embedder nor the index; any other asks the index once, about the query's vector and the
limit, and shows the best of its matches. -/
theorem search_selects_best (e : Embedder σ)
    (ask : Embedding → Int → StateM ρ (Except IndexFailure (List IndexMatch)))
    (query : Text) (limit : Int) (t : σ) (r : ρ) :
    (Text.areBlank query = true ∨ limit ≤ 0 →
      (hits e ask query limit).run (t, r) = (.ok [], (t, r)) ∧
      (hits e.recorded (recordedAsk ask) query limit).run ((t, []), (r, [])) =
        (.ok [], ((t, []), (r, [])))) ∧
    ∀ v t' ms r', Text.areBlank query = false → 0 < limit →
      (e.embedOne query).run t = (.ok v, t') → (ask v limit).run r = (.ok ms, r') →
      (∀ m ∈ ms, m.HasFields ∧ m.score.IsNumber) →
      ∃ found sorted, Selects ms limit.toNat found sorted ∧
        (hits e ask query limit).run (t, r) = (.ok found, (t', r')) ∧
        (hits e.recorded (recordedAsk ask) query limit).run ((t, []), (r, [])) =
          (.ok found, ((t', [[query]]), (r', [(v, limit)]))) := by
  constructor
  · intro hnothing
    have hasks : asks query limit = false := by
      unfold asks
      rcases hnothing with hblank | hlimit
      · rw [hblank, Bool.not_true, Bool.false_and]
      · rw [decide_eq_false (by omega), Bool.and_false]
    exact ⟨hits_of_not_asks hasks _, hits_of_not_asks hasks _⟩
  · intro v t' ms r' hblank hlimit hembed hask hmatches
    have hasks : asks query limit = true := by
      unfold asks
      rw [hblank, decide_eq_true hlimit]
      rfl
    have horder := ranked_stableOrder fun m hm => (hmatches m hm).2.ne_nan
    have hfields : ∀ m ∈ best limit ms, m.HasFields := fun m hm =>
      (hmatches m (mem_of_mem_best horder hm)).1
    have hembed' : (e.recorded.embedOne query).run (t, []) = (.ok v, (t', [[query]])) := by
      rw [Embedder.embedOne_recorded, hembed]
      rfl
    have hask' : (recordedAsk ask v limit).run (r, []) = (.ok ms, (r', [(v, limit)])) := by
      change (((ask v limit).run r).1, ((ask v limit).run r).2, [] ++ [(v, limit)]) = _
      rw [hask]
      rfl
    exact ⟨_, ranked ms, selects_best (fun m hm => (hmatches m hm).2) limit,
      hits_of_answers hasks hembed hask hfields, hits_of_answers hasks hembed' hask' hfields⟩

/-- Matches in no order: two that tie, both infinities, a negative number displayed as zero, and
metadata that are missing. -/
def unordered : List IndexMatch := [
  ⟨.text "low", .infinite true, .null⟩,
  ⟨.text "first", .finite false (1 / 4), .dict [("filename", .text "a.py")]⟩,
  ⟨.text "tiny", .finite true (1 / 100000000), .null⟩,
  ⟨.text "top", .infinite false, .dict [("token", .text "f")]⟩,
  ⟨.text "second", .finite false (1 / 4), .dict []⟩]

theorem search_selects_best_unordered :
    ∃ found sorted, Selects unordered 3 found sorted ∧
      (hits (ρ := Unit) ⟨true, fun texts => pure (.ok (texts.map fun _ => [1]))⟩
        (fun _ _ => pure (.ok unordered)) (Text.ofString "read a file") 3).run ((), ()) =
          (.ok found, ((), ())) := by
  obtain ⟨found, sorted, hselects, hrun, -⟩ :=
    (search_selects_best (ρ := Unit) ⟨true, fun texts => pure (.ok (texts.map fun _ => [1]))⟩
      (fun _ _ => pure (.ok unordered)) (Text.ofString "read a file") 3 () ()).2
      [1] () unordered () (by decide) (by decide) rfl rfl
      (by
        simp only [unordered, List.mem_cons, List.not_mem_nil, or_false, forall_eq_or_imp, forall_eq]
        refine ⟨⟨.inl rfl, ?_⟩, ⟨.inr ⟨_, rfl⟩, ?_⟩, ⟨.inl rfl, ?_⟩, ⟨.inr ⟨_, rfl⟩, ?_⟩,
          ⟨.inr ⟨_, rfl⟩, ?_⟩⟩
        all_goals decide +kernel)
  exact ⟨found, sorted, hselects, hrun⟩

end Search

end CodeAtlas
