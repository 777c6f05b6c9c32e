import CodeAtlas.Proofs.Pass.Convergence
import CodeAtlas.Proofs.Store.Refinement
import CodeAtlas.Service.Basic

/-!
# Searches show the current code

A search asks the index for the points most similar to the query, and shows each as a hit. After a
full pass over an empty store all points are of units that the project has, so the hits are, too:
as many as there are up to the limit, the best first, none twice (`search_shows_code`).

* `query_ok` says what the index answers: a first part of all points, ranked by their cosines;
* `hits_ok` says what a search makes of it, `ofMatch_point` what a hit shows of a unit;
* `Indexed` says what a full pass leaves of an empty store.
-/

namespace CodeAtlas

open Client Collection VectorIndex

/-! ## What the index answers -/

/-- How a point is given back for the query `v`. -/
def VectorIndex.matchOf (v : Embedding) (p : Point) : IndexMatch :=
  ⟨keyOf p, Embedding.cosine p.vector v,
    .dict ((p.payload.erase keyField).map fun (k, x) => (k, .text x.plain))⟩

/-- All points in the order in which they are similar to the query `v`. -/
structure Ranked (v : Embedding) (points ranked : List Point) : Prop where
  perm : ranked.Perm points
  sorted : ranked.Pairwise fun p q =>
    Score.lt (Embedding.cosine p.vector v) (Embedding.cosine q.vector v) = false

namespace Client

theorem queryPoints_ok {v : Embedding} {limit : Int} {withPayload : Bool} {c c' : Client}
    {found : List (Point × Score)} (h : run (queryPoints v limit withPayload) c = (.ok found, c')) :
    ∃ col, c.collection = some col ∧ found = col.nearest v limit.toNat := by
  obtain ⟨_, c1, hp, h⟩ := run_bind_ok h
  obtain ⟨col, c2, he, h⟩ := run_bind_ok h
  refine ⟨col, (keeps_perform _).eq hp ▸ (existing_ok he).2, ?_⟩
  split at h
  · split at h
    · rw [run_pure] at h
      cases h
      rfl
    · rw [run_throw] at h
      cases h
  · rw [run_throw] at h
    cases h

end Client

/-- The index answers with the nearest points of the collection, with none if there is none. -/
theorem VectorIndex.query_nearest {ix : VectorIndex} {v : Embedding} {limit : Int}
    (hlimit : 0 < limit) {c c' : Client} {ms : List IndexMatch}
    (h : run (ix.query v limit true) c = (.ok ms, c')) :
    ms = ((c.collection.map (·.nearest v limit.toNat)).getD []).map (shown true) := by
  unfold query at h
  rw [if_neg (by omega)] at h
  obtain ⟨b, c1, he, h⟩ := run_bind_ok h
  have hb := exists?_ok he
  have hcol := (ix.keeps_exists?).eq he
  cases b with
  | false =>
    rw [if_neg Bool.false_ne_true, run_pure] at h
    cases h
    have hnone : c.collection = none := by simpa using hb.symm
    rw [hnone]
    rfl
  | true =>
    rw [if_pos rfl] at h
    obtain ⟨found, c2, hq, h⟩ := run_bind_ok h
    rw [run_pure] at h
    cases h
    obtain ⟨col, hc, rfl⟩ := queryPoints_ok (guarded_ok hq)
    rw [← hcol, hc]
    rfl

/-- The index answers with the first of the ranked points. -/
theorem VectorIndex.query_ok {ix : VectorIndex} {v : Embedding} {limit : Int} (hlimit : 0 < limit)
    {c c' : Client} {ms : List IndexMatch} (h : run (ix.query v limit true) c = (.ok ms, c')) :
    ∃ ranked, Ranked v c.points ranked ∧ ms = (ranked.take limit.toNat).map (matchOf v) := by
  rw [query_nearest hlimit h]
  cases hc : c.collection with
  | none =>
    refine ⟨[], ⟨?_, .nil⟩, by rw [List.take_nil]; rfl⟩
    rw [points_none hc]
  | some col =>
    obtain ⟨ranked, hperm, hsorted, hnearest⟩ := col.exists_ranked v limit.toNat
    refine ⟨ranked, ⟨?_, hsorted⟩, ?_⟩
    · rw [points_eq hc]
      exact hperm
    · rw [Option.map_some, Option.getD_some, hnearest, List.map_map]
      rfl

/-! ## What a search makes of it -/

namespace Search

theorem cosine_ne_nan (a b : Embedding) : Embedding.cosine a b ≠ .nan := by
  intro h
  have := Score.place_cosine a b
  rw [h] at this
  cases this

/-- Matches that come with numbers for scores, the best first. -/
structure BestFirst (ms : List IndexMatch) : Prop where
  numbers : ∀ m ∈ ms, m.score ≠ .nan
  sorted : ms.Pairwise fun a b => Score.lt a.score b.score = false

theorem BestFirst.take {ms : List IndexMatch} (h : BestFirst ms) (n : Nat) : BestFirst (ms.take n) :=
  ⟨fun m hm => h.numbers m (List.mem_of_mem_take hm), h.sorted.sublist (List.take_sublist _ _)⟩

/-- Matches that come with the best first are only cut. -/
theorem BestFirst.best_eq {ms : List IndexMatch} (h : BestFirst ms) (limit : Int) :
    best limit ms = ms.take limit.toNat := by
  have hnumbers : (ms.all fun m => m.score != .nan) = true := by
    rw [List.all_eq_true]
    intro m hm
    simpa using h.numbers m hm
  unfold best Search.ranked
  rw [if_pos hnumbers, sortBy_of_pairwise (h.sorted.imp fun hab => by rw [hab]; rfl)]

theorem bestFirst_of_ranked {v : Embedding} {points ranked : List Point}
    (h : Ranked v points ranked) (limit : Int) :
    BestFirst ((ranked.take limit.toNat).map (matchOf v)) := by
  constructor
  · intro m hm
    obtain ⟨p, -, rfl⟩ := List.mem_map.1 hm
    exact cosine_ne_nan p.vector v
  · rw [List.pairwise_map]
    exact h.sorted.sublist (List.take_sublist _ _)

/-- Matches that come ranked and within the limit are left as they are. -/
theorem best_ranked {v : Embedding} {points ranked : List Point} (h : Ranked v points ranked)
    (limit : Int) :
    best limit ((ranked.take limit.toNat).map (matchOf v)) =
      (ranked.take limit.toNat).map (matchOf v) := by
  rw [(bestFirst_of_ranked h limit).best_eq, ← List.map_take, List.take_take, Nat.min_self]

/-- A search that succeeds has embedded the query and has got an answer, which it shows. -/
theorem hits_ok {τ ρ : Type} {e : Embedder τ}
    {ask : Embedding → Int → StateM ρ (Except IndexFailure (List IndexMatch))}
    {query : Text} {limit : Int} (hasks : asks query limit = true) {t t' : τ} {r r' : ρ}
    {hits : List SearchHit}
    (h : (Search.hits e ask query limit).run (t, r) = (.ok hits, (t', r'))) :
    ∃ v ms, (embedQuery e query).run t = (.ok v, t') ∧ (ask v limit).run r = (.ok ms, r') ∧
      (best limit ms).mapM SearchHit.ofMatch = .ok hits := by
  unfold Search.hits at h
  rw [if_pos hasks] at h
  rcases hembed : (embedQuery e query).run t with ⟨embedded, t1⟩
  cases embedded with
  | error err =>
    simp only [StateT.run_bind, StateT.run_get, pure_bind, hembed] at h
    cases h
  | ok v =>
    rcases hask : (ask v limit).run r with ⟨answer, r1⟩
    simp only [StateT.run_bind, StateT.run_get, pure_bind, hembed, hask] at h
    cases answer with
    | error f => cases h
    | ok ms =>
      change (((best limit ms).mapM SearchHit.ofMatch).mapError Error.setting, (t1, r1)) =
        (.ok hits, (t', r')) at h
      cases hshown : (best limit ms).mapM SearchHit.ofMatch with
      | error err =>
        rw [hshown] at h
        cases h
      | ok shown =>
        rw [hshown] at h
        cases h
        exact ⟨v, ms, rfl, hask, hshown⟩

end Search

/-! ## What a hit shows -/

namespace Fields

theorem get?_map (fs : Fields) (g : Value → Value) (key : Text) :
    get? (fs.map fun (k, x) => (k, g x)) key = (fs.get? key).map g := by
  induction fs with
  | nil => rfl
  | cons kv rest ih =>
    obtain ⟨k, v⟩ := kv
    rw [List.map_cons, get?_cons, get?_cons, ih]
    split <;> rfl

end Fields

namespace SearchHit

/-- A text, or what stands for it if it is empty. -/
def textOr (s placeholder : Text) : Value := .text (if s = "" then placeholder else s)

/-- A hit shows a unit and a score. -/
structure Shows (hit : SearchHit) (u : CodeUnit) (score : Score) : Prop where
  file : hit.file = textOr u.filename "Unknown file"
  token : hit.token = textOr u.token "[Unknown]"
  snippet : hit.snippet = textOr u.codeText "[No code]"
  score : hit.score = score.fixed 3

/-- A text of the unit is shown as it is. -/
theorem shown_point (project now : Text) (u : CodeUnit) (vector : Embedding) (field : Text)
    {s placeholder : Text} (hfield : field ≠ keyField)
    (hs : (u.payload project now).get? field = some (.text s)) :
    shown (((u.point project now vector).payload.erase keyField).map
      fun (k, x) => (k, .text x.plain)) field placeholder = textOr s placeholder := by
  unfold shown
  rw [Fields.get?_map _ (fun x => .text x.plain), Fields.get?_erase _ hfield,
    CodeUnit.get?_point_payload, if_neg hfield, hs]
  by_cases h : s = ""
  · simp [textOr, Value.truthy, Value.plain, h]
  · simp [textOr, Value.truthy, Value.plain, h]

theorem ofMatch_point {project now : Text} {u : CodeUnit} {vector v : Embedding}
    {hit : SearchHit} (h : ofMatch (matchOf v (u.point project now vector)) = .ok hit) :
    hit.Shows u (Embedding.cosine vector v) := by
  cases h
  refine ⟨?_, ?_, ?_, rfl⟩
  · exact shown_point project now u vector "filename" (by decide)
      (by simp [CodeUnit.payload, Fields.get?_cons])
  · exact shown_point project now u vector "token" (by decide)
      (by simp [CodeUnit.payload, Fields.get?_cons])
  · exact shown_point project now u vector "code" (by decide)
      (by simp [CodeUnit.payload, Fields.get?_cons])

end SearchHit

/-! ## What a full pass leaves of an empty store -/

namespace Pass

variable {σ : Type}

/-- Points of pairs of units and vectors, one for each id. -/
structure Indexed (project now : Text) (ps : List (CodeUnit × Embedding)) (points : List Point) :
    Prop where
  distinct : DistinctIds points
  exists_pair : ∀ q ∈ points, ∃ p ∈ ps, q = p.1.point project now p.2
  complete : ∀ p ∈ ps, ∃ q ∈ points, q.id = PointId.ofKey p.1.key

/-- Nothing is stale after the first pass. -/
theorem deleted_nil {job : Job} {ix : Indexer σ} {w : Workspace σ} {xs : List Extracted}
    {ps : List (CodeUnit × Embedding)} {batches : List (List IndexItem)} {deleted : List Text}
    (hempty : w.client.points = []) (found : job.Found ix w xs ps batches)
    (pruned : job.Pruned ix w xs (ps.map (itemOf ix.project w.now))
      (overlay w.client.points (batches.flatten.map pointOf)) deleted) : deleted = [] := by
  rw [hempty] at pruned
  rw [List.eq_nil_iff_forall_not_mem]
  intro key hkey
  have hdistinct : DistinctIds (overlay [] (batches.flatten.map pointOf)) :=
    distinctIds_overlay tidy_nil.distinct _
  obtain ⟨-, ⟨q, hq, -, hk⟩, hnew, -⟩ := (pruned.mem_iff hdistinct key).1 hkey
  rcases mem_overlay hq with hq | hq
  · obtain ⟨item, hitem, rfl⟩ := List.mem_map.1 hq
    rw [keyOf_pointOf] at hk
    cases hk
    exact hnew item ((Batch.mem_batches found.batched).1 hitem) rfl
  · cases hq

theorem indexed_of_success {ix : Indexer σ} {w w' : Workspace σ} {report : Report}
    (hempty : w.client.points = []) (hrun : Job.full.run ix w = (.ok report, w'))
    (hsuccess : report.success = true) :
    ∃ xs ps, survey ix w = .ok xs ∧
      ix.embedder.pairs (filled (unitLists xs)) w.embedding = some ps ∧
      ps.map (·.1) = (unitLists xs).flatten ∧ Indexed ix.project w.now ps w'.client.points := by
  obtain ⟨xs, ps, batches, deleted, found, pruned, -, -, hpts⟩ :=
    (Job.run_succeeded hrun hsuccess).of_ok
  rw [deleted_nil hempty found pruned, hempty, List.map_nil, without_nil] at hpts
  refine ⟨xs, ps, found.inspected, found.embedded, found.units, ?_⟩
  rw [hpts]
  refine ⟨distinctIds_overlay tidy_nil.distinct _, fun q hq => ?_, fun p hp => ?_⟩
  · rcases mem_overlay hq with hq | hq
    · obtain ⟨item, hitem, rfl⟩ := List.mem_map.1 hq
      obtain ⟨p, hp, rfl⟩ := List.mem_map.1 ((Batch.mem_batches found.batched).1 hitem)
      exact ⟨p, hp, rfl⟩
    · cases hq
  · have hitem := (Batch.mem_batches found.batched).2
      (List.mem_map_of_mem (f := itemOf ix.project w.now) hp)
    obtain ⟨q, hq, -, hid⟩ := exists_new_overlay [] (List.mem_map_of_mem hitem)
    exact ⟨q, hq, hid⟩

namespace Indexed

variable {project now : Text} {ps : List (CodeUnit × Embedding)} {points : List Point}

/-- There are as many points as ids. -/
theorem length_eq (h : Indexed project now ps points) :
    points.length = ((ps.map (·.1)).map fun u => PointId.ofKey u.key).toFinset.card := by
  have hids : ((ps.map (·.1)).map fun u => PointId.ofKey u.key).toFinset =
      (points.map (·.id)).toFinset := by
    ext id
    rw [List.mem_toFinset, List.mem_toFinset, List.map_map, List.mem_map, List.mem_map]
    constructor
    · rintro ⟨p, hp, rfl⟩
      exact h.complete p hp
    · rintro ⟨q, hq, rfl⟩
      obtain ⟨p, hp, rfl⟩ := h.exists_pair q hq
      exact ⟨p, hp, rfl⟩
  rw [hids, List.toFinset_card_of_nodup h.distinct, List.length_map]

end Indexed

/-- Where ids tell keys apart, there are as many ids as keys. -/
theorem card_ids_eq {units : List CodeUnit}
    (hinj : Set.InjOn PointId.ofKey { key | ∃ u ∈ units, u.key = key }) :
    (units.map fun u => PointId.ofKey u.key).toFinset.card =
      (units.map (·.key)).toFinset.card := by
  have himage : (units.map fun u => PointId.ofKey u.key).toFinset =
      (units.map (·.key)).toFinset.image PointId.ofKey := by
    ext id
    simp
  rw [himage, Finset.card_image_of_injOn]
  refine hinj.mono fun key hkey => ?_
  simpa using hkey

/-! ## Searching after indexing -/

/-- **Searches show the current code.** After a full pass over an empty store has succeeded, a search
that does not fail shows points of the store, each as a hit:

* a hit has the file, token and code of a unit that the project has, and the score of the vector that
  the unit was given;
* no point is shown twice, the best come first, and none that is left out is more similar;
* there are as many hits as ids of units, up to the limit, and as many as keys of units where ids
  tell these apart. -/
theorem search_shows_code {ix : Indexer σ} {w w' : Workspace σ} {report : Report}
    (hempty : w.client.points = []) (hrun : Job.full.run ix w = (.ok report, w'))
    (hsuccess : report.success = true) {τ : Type} {e : Embedder τ} {t t' : τ} {c c' : Client}
    (hc : c.collection = w'.client.collection) {query : Text}
    (hquery : Text.areBlank query = false) {k : Int} (hk : 0 < k) {hits : List SearchHit}
    (hsearch : (Search.hits e (Service.ask ix.index) query k).run (t, c) = (.ok hits, (t', c'))) :
    ∃ xs ps v shown, survey ix w = .ok xs ∧
      ix.embedder.pairs (filled (unitLists xs)) w.embedding = some ps ∧
      (Search.embedQuery e query).run t = (.ok v, t') ∧
      List.Forall₂ (fun q hit => q ∈ w'.client.points ∧ ∃ u ∈ (unitLists xs).flatten,
        (u, q.vector) ∈ ps ∧ q.key? = some u.key ∧
          hit.Shows u (Embedding.cosine q.vector v)) shown hits ∧
      (shown.map (·.id)).Nodup ∧
      (shown.Pairwise fun p q =>
        Score.lt (Embedding.cosine p.vector v) (Embedding.cosine q.vector v) = false) ∧
      (∀ p ∈ shown, ∀ q ∈ w'.client.points, q ∉ shown →
        Score.lt (Embedding.cosine p.vector v) (Embedding.cosine q.vector v) = false) ∧
      hits.length =
        min k.toNat ((unitLists xs).flatten.map fun u => PointId.ofKey u.key).toFinset.card ∧
      (Set.InjOn PointId.ofKey { key | ∃ u ∈ (unitLists xs).flatten, u.key = key } →
        hits.length = min k.toNat ((unitLists xs).flatten.map (·.key)).toFinset.card) := by
  obtain ⟨xs, ps, hsurvey, hpairs, hunits, hindexed⟩ := indexed_of_success hempty hrun hsuccess
  have hasks : Search.asks query k = true := by simp [Search.asks, hquery, hk]
  obtain ⟨v, ms, hembed, hask, hshown⟩ := Search.hits_ok hasks hsearch
  obtain ⟨ranked, hranked, rfl⟩ := query_ok hk hask
  rw [Search.best_ranked hranked] at hshown
  rw [points_congr hc] at hranked
  -- the points that are shown are the first of the ranked ones
  have hmem : ∀ q ∈ ranked.take k.toNat, q ∈ w'.client.points := fun q hq =>
    hranked.perm.mem_iff.1 (List.mem_of_mem_take hq)
  have hhits := forall₂_of_mapM_ok hshown
  rw [List.forall₂_map_left_iff] at hhits
  have hids : hits.length =
      min k.toNat ((unitLists xs).flatten.map fun u => PointId.ofKey u.key).toFinset.card := by
    rw [← hhits.length_eq, List.length_take, hranked.perm.length_eq, hindexed.length_eq, hunits]
  refine ⟨xs, ps, v, ranked.take k.toNat, hsurvey, hpairs, hembed, ?_, ?_, ?_, ?_, hids, ?_⟩
  · refine ((List.forall₂_and_left _ _).2 ⟨hmem, hhits⟩).imp fun q hit ⟨hq, hhit⟩ => ⟨hq, ?_⟩
    obtain ⟨⟨u, vector⟩, hp, rfl⟩ := hindexed.exists_pair q hq
    refine ⟨u, hunits ▸ List.mem_map_of_mem hp, hp, CodeUnit.point_key? .., ?_⟩
    exact SearchHit.ofMatch_point hhit
  · have hnodup : (ranked.map (·.id)).Nodup :=
      (hranked.perm.map _).nodup_iff.2 hindexed.distinct
    rw [List.map_take]
    exact hnodup.sublist (List.take_sublist _ _)
  · exact hranked.sorted.sublist (List.take_sublist _ _)
  · intro p hp q hq hout
    have hsplit := hranked.sorted
    rw [← List.take_append_drop k.toNat ranked, List.pairwise_append] at hsplit
    have hrest : q ∈ ranked.drop k.toNat := by
      have hq' := hranked.perm.mem_iff.2 hq
      rw [← List.take_append_drop k.toNat ranked, List.mem_append] at hq'
      exact hq'.resolve_left hout
    exact hsplit.2.2 p hp q hrest
  · intro hinj
    rw [hids, card_ids_eq hinj]

namespace Sample

/-- An embedder that turns further the later a text's first letter comes. -/
def turning : Embedder Unit :=
  ⟨false, fun texts => pure (.ok (texts.map fun text =>
    [1, ((text.toList.head?.map CodePoint.toNat).getD 0 : Rat) - 100]))⟩

/-- The project `a` with three functions. -/
def three : Workspace Unit :=
  lettered [("k.py", [0x68]), ("m.py", [0x66, 0x67])] (.fresh (.text "code"))

/-- The indexer of the project `a` with this embedder. -/
def turner : Indexer Unit := { indexer "a" with embedder := turning }

/-- The project indexed into an empty store. -/
def first : Except Escape Report × Workspace Unit := Job.full.run turner three

/-- A search for up to two units after that. -/
def searched : Except Search.Error (List SearchHit) × (Unit × Client) :=
  (Search.hits turning (Service.ask turner.index) "f" 2).run ((), first.2.client)

end Sample

/-- Of three units the two most similar to the query are shown, the best first. -/
theorem sample_search_shows_code :
    ∃ hits xs v shown, Sample.searched.1 = .ok hits ∧
      hits.map (·.snippet.text?) = (["f", "g"] : List Text).map some ∧
      survey Sample.turner Sample.three = .ok xs ∧
      (unitLists xs).flatten.map (·.codeText) = (["h", "f", "g"] : List Text) ∧
      List.Forall₂ (fun (q : Point) hit => ∃ u ∈ (unitLists xs).flatten,
        SearchHit.Shows hit u (Embedding.cosine q.vector v)) shown hits ∧
      ∀ p ∈ shown, ∀ q ∈ Sample.first.2.client.points, q ∉ shown →
        Score.lt (Embedding.cosine p.vector v) (Embedding.cosine q.vector v) = false := by
  obtain ⟨hfirst, hsnippets, hunits⟩ : succeeded Sample.first.1 = true ∧
      Sample.searched.1.toOption.map (·.map (·.snippet.text?)) =
        some ((["f", "g"] : List Text).map some) ∧
      (survey Sample.turner Sample.three).toOption.map (fun xs =>
        (unitLists xs).flatten.map (·.codeText)) = some (["h", "f", "g"] : List Text) := by
    decide +kernel
  obtain ⟨report, hrun, hsuccess⟩ := Job.exists_report hfirst
  rcases hsearch : Sample.searched with ⟨answer, t', c'⟩
  rw [hsearch] at hsnippets
  cases answer with
  | error e => cases hsnippets
  | ok hits =>
    obtain ⟨xs, ps, v, shown, hsurvey, -, -, hshown, -, -, hleft, -⟩ :=
      search_shows_code rfl hrun hsuccess rfl (by decide) (by decide) hsearch
    rw [hsurvey] at hunits
    refine ⟨hits, xs, v, shown, rfl, Option.some.inj hsnippets, hsurvey, Option.some.inj hunits,
      hshown.imp ?_, hleft⟩
    rintro q hit ⟨-, u, hu, -, -, hshows⟩
    exact ⟨u, hu, hshows⟩

end Pass

end CodeAtlas
