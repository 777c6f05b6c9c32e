import CodeAtlas.Proofs.Search.Selection
import CodeAtlas.Proofs.Search.Shown
import CodeAtlas.Proofs.Store.Faultless
import CodeAtlas.Service.Http

/-!
# A search request only narrows

A search asks the index for as many matches as it shows at most, sorts them and cuts them. Where the
index gives the best first, and a first part of that to a smaller limit (`Search.Narrows`), a smaller
limit shows a first part of the hits:

    few = many.take m.toNat                                                  (Search.hits_narrow)

A request for `k` hits is a search with the limit `min k s.topK`, so it gets a first part of what it
would get without the number (`request_narrows`), however the index is asked, as long as it narrows.
The two requests need not meet the same state, only one that searches alike (`Alike`): with the index
of the project they may come one after the other (`alike_answer`), and both have a reply as long as
the store lets every call pass (`exists_reply`).
-/

namespace CodeAtlas

open Client Collection VectorIndex

/-! ## Searches with two limits -/

namespace Search

/-- Of an index that is asked in two states: the answer to a smaller limit is a first part of that to
a larger one, which has the best first. -/
structure Narrows {ρ : Type}
    (ask : Embedding → Int → StateM ρ (Except IndexFailure (List IndexMatch))) (r r' : ρ) :
    Prop where
  start : ∀ v (m n : Int) few many r1 r2, 0 < m → m ≤ n → (ask v m).run r = (.ok few, r1) →
    (ask v n).run r' = (.ok many, r2) → few = many.take m.toNat
  bestFirst : ∀ v (n : Int) many r2, 0 < n → (ask v n).run r' = (.ok many, r2) → BestFirst many

section

variable {τ ρ : Type} {e : Embedder τ}
  {ask : Embedding → Int → StateM ρ (Except IndexFailure (List IndexMatch))}
  {query : Text}

theorem asks_iff {limit : Int} :
    asks query limit = true ↔ Text.areBlank query = false ∧ 0 < limit := by
  simp [asks]

/-- A smaller limit shows a first part of the hits. -/
theorem hits_narrow {m n : Int} (hmn : m ≤ n) {t t' t1 t2 : τ} {r r' r1 r2 : ρ}
    (hask : Narrows ask r r')
    (hembed : ((embedQuery e query).run t).1 = ((embedQuery e query).run t').1)
    {few many : List SearchHit} (hfew : (hits e ask query m).run (t, r) = (.ok few, (t1, r1)))
    (hmany : (hits e ask query n).run (t', r') = (.ok many, (t2, r2))) :
    few = many.take m.toNat ∧ many.length ≤ n.toNat := by
  cases hn : asks query n with
  | false =>
    -- nothing is asked under the larger limit, and so neither under the smaller one
    have hm : asks query m = false := by
      rw [← Bool.not_eq_true, asks_iff] at hn ⊢
      exact fun hm => hn ⟨hm.1, by omega⟩
    rw [hits_of_not_asks hn] at hmany
    rw [hits_of_not_asks hm] at hfew
    cases hmany
    cases hfew
    simp
  | true =>
    obtain ⟨hblank, hpos⟩ := asks_iff.1 hn
    obtain ⟨v, ms, hv, hms, hshown⟩ := hits_ok hn hmany
    have hbest := hask.bestFirst v n ms r2 hpos hms
    rw [hbest.best_eq] at hshown
    have hlength : many.length ≤ n.toNat := by
      rw [← (forall₂_of_mapM_ok hshown).length_eq, List.length_take]
      exact Nat.min_le_left _ _
    refine ⟨?_, hlength⟩
    by_cases hmpos : 0 < m
    · obtain ⟨v', ms', hv', hms', hshown'⟩ := hits_ok (asks_iff.2 ⟨hblank, hmpos⟩) hfew
      rw [hv, hv'] at hembed
      cases hembed
      obtain rfl := hask.start v m n ms' ms r1 r2 hmpos hmn hms' hms
      rw [(hbest.take _).best_eq, List.take_take, Nat.min_self] at hshown'
      have hfirst := mapM_take hshown m.toNat
      rw [List.take_take, Nat.min_eq_left (by omega)] at hfirst
      exact Except.ok.inj (hshown'.symm.trans hfirst)
    · have hm : asks query m = false := by
        rw [← Bool.not_eq_true, asks_iff]
        exact fun hm => hmpos hm.2
      rw [hits_of_not_asks hm] at hfew
      cases hfew
      rw [Int.toNat_of_nonpos (by omega), List.take_zero]

end

end Search

/-! ## The index -/

theorem Client.keeps_queryPoints (v : Embedding) (limit : Int) (withPayload : Bool) :
    Keeps (queryPoints v limit withPayload) := by
  refine keeps_bind (keeps_perform _) fun _ => keeps_bind keeps_existing fun col => ?_
  split
  · split
    · exact keeps_pure _
    · exact keeps_throw _
  · exact keeps_throw _

theorem Collection.nearest_take (col : Collection) (v : Embedding) {m n : Nat} (h : m ≤ n) :
    col.nearest v m = (col.nearest v n).take m := by
  unfold nearest
  rw [List.take_take, Nat.min_eq_left h]

/-- The index narrows as long as its collection stays the same. -/
theorem VectorIndex.narrows_ask (ix : VectorIndex) {c c' : Client}
    (h : c.collection = c'.collection) : Search.Narrows (Service.ask ix) c c' := by
  constructor
  · intro v m n few many c1 c2 hm hmn hfew hmany
    rw [query_nearest hm hfew, query_nearest (Int.lt_of_lt_of_le hm hmn) hmany, h]
    cases c'.collection with
    | none => simp
    | some col =>
      rw [Option.map_some, Option.map_some, Option.getD_some, Option.getD_some,
        col.nearest_take v (Int.toNat_le_toNat hmn), List.map_take]
  · intro v n many c2 hn hmany
    obtain ⟨ranked, hranked, rfl⟩ := query_ok hn hmany
    exact Search.bestFirst_of_ranked hranked n

/-- A query changes nothing. -/
theorem VectorIndex.keeps_query (ix : VectorIndex) (v : Embedding) (limit : Int)
    (withMetadata : Bool) : Keeps (ix.query v limit withMetadata) := by
  unfold query
  split
  · exact keeps_pure _
  · refine keeps_bind ix.keeps_exists? fun b => ?_
    split
    · exact keeps_bind (keeps_adapt (keeps_queryPoints v limit withMetadata) _) fun _ => keeps_pure _
    · exact keeps_pure _

/-! ## Services -/

namespace Service

variable {σ : Type} {s t s' t' : Service σ}

/-- Two states of a service that search alike: the index narrows from one to the other, and the
embedder answers as it did. -/
structure Alike (asking : Asking) (s t : Service σ) : Prop where
  indexer : s.indexer = t.indexer
  topK : s.topK = t.topK
  narrows : Search.Narrows (asking s.indexer.index) s.workspace.client t.workspace.client
  embedding : ∀ query,
    ((Search.embedQuery s.indexer.embedder query).run s.workspace.embedding).1 =
      ((Search.embedQuery s.indexer.embedder query).run t.workspace.embedding).1

theorem Alike.refl (s : Service σ) : Alike ask s s :=
  ⟨rfl, rfl, s.indexer.index.narrows_ask rfl, fun _ => rfl⟩

theorem search_narrow {asking : Asking} (h : Alike asking s t) {m n : Int} (hmn : m ≤ n)
    {query : Text} {few many : List SearchHit} (hfew : s.search asking query m = (.ok few, s'))
    (hmany : t.search asking query n = (.ok many, t')) :
    few = many.take m.toNat ∧ many.length ≤ n.toNat := by
  unfold search searching at hfew hmany
  dsimp only at hfew hmany
  rw [← h.indexer] at hmany
  rcases hm : (Search.hits s.indexer.embedder (asking s.indexer.index) query m).run
    (s.workspace.embedding, s.workspace.client) with ⟨result, e, c⟩
  rcases hn : (Search.hits s.indexer.embedder (asking s.indexer.index) query n).run
    (t.workspace.embedding, t.workspace.client) with ⟨result', e', c'⟩
  rw [hm] at hfew
  rw [hn] at hmany
  cases hfew
  cases hmany
  exact Search.hits_narrow hmn h.narrows (h.embedding query) hm hn

end Service

/-! ## Requests -/

theorem Fields.get?_erase_self (fields : Fields) (key : Text) :
    (fields.erase key).get? key = none := by
  unfold get? erase
  rw [List.lookup_eq_none_iff]
  intro f hf
  have hne : f.1 ≠ key := bne_iff_ne.1 (List.mem_filter.1 hf).2
  exact bne_iff_ne.2 hne.symm

theorem Field.required_erase {α : Type} (fields : Fields) {key other : Text} (h : other ≠ key)
    (read? : Value → Option α) {a : α} :
    required (fields.erase key) other read? = .ok a ↔ required fields other read? = .ok a := by
  unfold required
  rw [Fields.get?_erase fields h]
  cases fields.get? other with
  | none => exact ⟨nofun, nofun⟩
  | some v => exact Iff.rfl

/-- The request with a field of its body left out. -/
def Request.without (r : Request) (key : Text) : Request :=
  match r.body with
  | .json (.dict fields) => { r with body := .json (.dict (Fields.erase fields key)) }
  | _ => r

namespace Request

theorem route_without (r : Request) (key : Text) : Route.of (r.without key) = Route.of r := by
  unfold without
  split <;> rfl

theorem body_without {r : Request} {fields : Fields} (h : r.body = .json (.dict fields))
    (key : Text) : (r.without key).body = .json (.dict (fields.erase key)) := by
  unfold without
  rw [h]

end Request

/-- The results that an answer to a search shows. -/
def Response.results? : Response → Option (List Value)
  | .json _ (.dict fields) =>
    match Fields.get? fields "results" with
    | some (.list results) => some results
    | _ => none
  | _ => none

theorem Response.refusal_ne_json (parts : List Value) (status : Nat) (body : Value) :
    refusal parts ≠ .json status body := by
  unfold refusal
  split <;> exact nofun

namespace Service

variable {σ : Type} {s t s' : Service σ}

theorem searchAnswer_ok {hits : List SearchHit} {body : Value}
    (h : searchAnswer hits = .json 200 body) :
    (Response.json 200 body).results? = some (hits.map hitValue) := by
  unfold searchAnswer at h
  split at h
  · cases h
    rfl
  · cases h

/-- There is a reply with results only if the search has succeeded. -/
theorem handleSearch_ok {asking : Asking} {fields : Fields} {body : Value}
    (h : s.handleSearch asking fields = (.json 200 body, s')) :
    ∃ query asked hits, Field.required fields "query" Field.text? = .ok query ∧
      Field.optional fields "top_k" Field.optionalInteger? = .ok asked ∧
      s.search asking query (s.searchLimit asked.join) = (.ok hits, s') ∧
      (Response.json 200 body).results? = some (hits.map hitValue) := by
  unfold handleSearch at h
  split at h
  · next query asked hquery hasked =>
    split at h
    · cases h
    · cases h
    · cases h
    · next hits s1 hsearch =>
      obtain ⟨hanswer, rfl⟩ := Prod.mk.inj h
      exact ⟨query, asked, hits, hquery, hasked, hsearch, searchAnswer_ok hanswer⟩
  all_goals exact absurd (congrArg Prod.fst h) (Response.refusal_ne_json _ _ _)

/-- What is said to a search request. -/
theorem reply_search {asking : Asking} {r : Request} {fields : Fields}
    (hroute : Route.of r = .ok .search) (hbody : r.body = .json (.dict fields)) (s : Service σ) :
    s.reply asking r = s.handleSearch asking fields := by
  unfold reply withBody
  rw [hroute, hbody]

/-- What is said is sent, or else that it failed. -/
theorem reply_of_answer {asking : Asking} {r : Request} {status : Nat} {body : Value}
    (h : (s.answer asking r).1 = .json status body) :
    (s.reply asking r).1 = .json status body := by
  unfold answer at h
  dsimp only at h
  split at h
  · exact h
  · cases h

end Service

/-! ## Searches that are answered -/

namespace SearchHit

/-- A snippet that is a text can be shown. -/
theorem paragraph_ok (n : Int) {h : SearchHit} {snippet : Text} (hs : h.snippet = .text snippet) :
    ∃ text, paragraph (.whole n) h = .ok text := by
  obtain ⟨code, hcode⟩ : ∃ code, excerpt (.whole n) snippet = .ok code := by
    unfold excerpt
    dsimp only
    split
    · exact ⟨_, rfl⟩
    · exact ⟨_, rfl⟩
  unfold paragraph
  rw [hs, excerptOf, hcode]
  exact ⟨_, rfl⟩

theorem message_ok (n : Int) {hits : List SearchHit}
    (h : ∀ hit ∈ hits, ∃ snippet, hit.snippet = .text snippet) :
    ∃ text, message (.int n) hits = .ok text := by
  unfold message
  split
  · exact ⟨_, rfl⟩
  · cases hp : hits.mapM (paragraph (.whole n)) with
    | ok paragraphs =>
      change ∃ text, (do
        let paragraphs ← hits.mapM (paragraph (.whole n))
        return "Function matches found:\n\n" ++ Text.intercalate "\n\n" paragraphs) = Except.ok text
      rw [hp]
      exact ⟨_, rfl⟩
    | error e =>
      obtain ⟨hit, hmem, he⟩ := exists_of_mapM_error hp
      obtain ⟨snippet, hs⟩ := h hit hmem
      obtain ⟨text, ht⟩ := paragraph_ok n hs
      rw [he] at ht
      cases ht

/-- A match of the index is shown with a text for its snippet. -/
theorem snippet_shown (p : Point) (score : Score) :
    ∃ snippet, (ofFields (VectorIndex.shown true (p, score))).snippet = .text snippet := by
  have hcode : Fields.get? ((p.payload.erase keyField).map fun f => (f.1, .text f.2.plain)) "code" =
      ((p.payload.erase keyField).get? "code").map fun x => .text x.plain :=
    Fields.get?_map _ (fun x => .text x.plain) _
  change ∃ snippet, shown ((p.payload.erase keyField).map fun f => (f.1, .text f.2.plain)) "code"
    "[No code]" = .text snippet
  unfold shown
  rw [hcode]
  cases (p.payload.erase keyField).get? "code" with
  | none => exact ⟨_, rfl⟩
  | some x =>
    dsimp only [Option.map_some]
    split
    · exact ⟨_, rfl⟩
    · exact ⟨_, rfl⟩

end SearchHit

namespace Service

variable {σ : Type} {s : Service σ}

/-- A service whose store lets every call pass and whose embedder gives a vector that fits finds
hits that can be shown. -/
theorem exists_search {query : Text} {v : Embedding} {e : σ} (limit : Int)
    (hembed : (s.indexer.embedder.embedOne query).run s.workspace.embedding = (.ok v, e))
    (hc : s.workspace.client.IsFaultless)
    (hfits : ∀ col, s.workspace.client.collection = some col → col.dimension = some v.length) :
    ∃ hits s', s.search ask query limit = (.ok hits, s') ∧ s'.workspace.client.IsFaultless ∧
      ∀ hit ∈ hits, ∃ snippet, hit.snippet = .text snippet := by
  unfold search searching
  dsimp only
  cases hasks : Search.asks query limit with
  | false =>
    rw [Search.hits_of_not_asks hasks]
    exact ⟨[], _, rfl, hc, nofun⟩
  | true =>
    have hpos := (Search.asks_iff.1 hasks).2
    obtain ⟨found, col, hanswer⟩ : ∃ (found : List (Point × Score)) (col : Option Collection),
        Gives (s.indexer.index.query v limit true) s.workspace.client
          (.ok (found.map (VectorIndex.shown true))) col := by
      cases hcol : s.workspace.client.collection with
      | none => exact ⟨[], _, gives_query_nothing _ hc hcol v limit true (.inr rfl)⟩
      | some col => exact ⟨_, _, gives_query _ hc hcol true hpos (hfits col hcol)⟩
    obtain ⟨c', hrun, -, hc'⟩ := hanswer.eq
    have hask : (ask s.indexer.index v limit).run s.workspace.client =
        (.ok (found.map (VectorIndex.shown true)), c') := hrun
    have hbest := (s.indexer.index.narrows_ask rfl).bestFirst v limit _ c' hpos hask
    have hshown : ∀ m ∈ Search.best limit (found.map (VectorIndex.shown true)),
        ∃ p score, VectorIndex.shown true (p, score) = m := by
      rw [hbest.best_eq]
      intro m hm
      obtain ⟨⟨p, score⟩, -, rfl⟩ := List.mem_map.1 (List.mem_of_mem_take hm)
      exact ⟨p, score, rfl⟩
    have hfields : ∀ m ∈ Search.best limit (found.map (VectorIndex.shown true)), m.HasFields := by
      intro m hm
      obtain ⟨p, score, rfl⟩ := hshown m hm
      exact .inr ⟨_, rfl⟩
    rw [Search.hits_of_answers hasks hembed hask hfields]
    refine ⟨_, _, rfl, hc', fun hit hmem => ?_⟩
    obtain ⟨m, hm, rfl⟩ := List.mem_map.1 hmem
    obtain ⟨p, score, rfl⟩ := hshown m hm
    exact SearchHit.snippet_shown p score

/-- Such a service has a reply to every search request that can be read. -/
theorem exists_reply {r : Request} {fields : Fields} (hroute : Route.of r = .ok .search)
    (hbody : r.body = .json (.dict fields)) {query : Text}
    {asked : Option (Option Int)} (hquery : Field.required fields "query" Field.text? = .ok query)
    (hasked : Field.optional fields "top_k" Field.optionalInteger? = .ok asked)
    {v : Embedding} {e : σ}
    (hembed : (s.indexer.embedder.embedOne query).run s.workspace.embedding = (.ok v, e))
    (hc : s.workspace.client.IsFaultless)
    (hfits : ∀ col, s.workspace.client.collection = some col → col.dimension = some v.length) :
    ∃ body s', s.reply ask r = (.json 200 body, s') ∧ s'.workspace.client.IsFaultless := by
  obtain ⟨hits, s', hsearch, hc', hsnippets⟩ :=
    exists_search (s.searchLimit asked.join) hembed hc hfits
  obtain ⟨message, hmessage⟩ := SearchHit.message_ok SearchHit.defaultMaxChars hsnippets
  rw [reply_search hroute hbody]
  unfold handleSearch
  rw [hquery, hasked]
  dsimp only
  rw [hsearch]
  dsimp only
  unfold searchAnswer
  rw [hmessage]
  exact ⟨_, s', rfl, hc'⟩

end Service

/-! ## Requests one after the other -/

/-- What an embedder answers to a query does not depend on its state. -/
def Embedder.Steady {σ : Type} (e : Embedder σ) : Prop :=
  ∀ query t t',
    ((Search.embedQuery e query).run t).1 = ((Search.embedQuery e query).run t').1

namespace Service

variable {σ : Type} {s t : Service σ}

theorem collection_hits (e : Embedder σ) (ix : VectorIndex) (query : Text) (limit : Int)
    (t : σ) (c : Client) :
    ((Search.hits e (ask ix) query limit).run (t, c)).2.2.collection = c.collection := by
  cases hasks : Search.asks query limit with
  | false => rw [Search.hits_of_not_asks hasks]
  | true =>
    unfold Search.hits
    rw [if_pos hasks]
    rcases hembed : (Search.embedQuery e query).run t with ⟨embedded, t1⟩
    cases embedded with
    | error err =>
      simp only [StateT.run_bind, StateT.run_get, pure_bind, hembed]
      rfl
    | ok v =>
      rcases hask : (ask ix v limit).run c with ⟨answer, c1⟩
      have hkeeps : c1.collection = c.collection := (ix.keeps_query v limit true).eq hask
      simp only [StateT.run_bind, StateT.run_get, pure_bind, hembed, hask]
      cases answer with
      | error f => exact hkeeps
      | ok ms => exact hkeeps

/-- After a search request a service searches as before, if its embedder is steady. -/
theorem alike_handleSearch (h : s.indexer.embedder.Steady) (fields : Fields) :
    Alike ask s (s.handleSearch ask fields).2 := by
  have hsearch : ∀ query limit, Alike ask s (s.search ask query limit).2 := fun query limit =>
    ⟨rfl, rfl, s.indexer.index.narrows_ask
      (collection_hits s.indexer.embedder s.indexer.index query limit _ _).symm,
      fun query' => h query' _ _⟩
  unfold handleSearch
  split
  · next query asked _ _ =>
    have hs := hsearch query (s.searchLimit asked.join)
    split
    · next hs' => rw [hs'] at hs; exact hs
    · next hs' => rw [hs'] at hs; exact hs
    · next hs' => rw [hs'] at hs; exact hs
    · next hs' => rw [hs'] at hs; exact hs
  all_goals exact Alike.refl s

theorem alike_answer (h : s.indexer.embedder.Steady) {r : Request} {fields : Fields}
    (hroute : Route.of r = .ok .search) (hbody : r.body = .json (.dict fields)) :
    Alike ask s (s.answer ask r).2 := by
  have hreply := alike_handleSearch h fields
  rw [← reply_search hroute hbody] at hreply
  unfold answer
  dsimp only
  split
  · exact hreply
  · exact ⟨hreply.indexer, hreply.topK, hreply.narrows, hreply.embedding⟩

/-- **A search request only narrows.** However the index is asked, as long as it narrows, the results
of a request that says how many it wants are the first of those of the same request without the
number, as many as it wants and as a search gives; neither are there more than a search gives. -/
theorem request_narrows {asking : Asking} (h : Alike asking s t) {r : Request} {fields : Fields}
    {k : Int} (hroute : Route.of r = .ok .search) (hbody : r.body = .json (.dict fields))
    (hk : Field.optional fields "top_k" Field.optionalInteger? = .ok (some (some k)))
    {narrow wide : Value} (hnarrow : (s.answer asking r).1 = .json 200 narrow)
    (hwide : (t.answer asking (r.without "top_k")).1 = .json 200 wide) :
    ∃ few many, (Response.json 200 narrow).results? = some few ∧
      (Response.json 200 wide).results? = some many ∧
      few = many.take (max 0 (min k s.topK)).toNat ∧
      few.length ≤ (max 0 s.topK).toNat ∧ many.length ≤ (max 0 s.topK).toNat := by
  have hnarrow := reply_of_answer hnarrow
  have hwide := reply_of_answer hwide
  rw [reply_search hroute hbody] at hnarrow
  rw [reply_search (r.route_without _ ▸ hroute) (Request.body_without hbody _)] at hwide
  rcases hs : s.handleSearch asking fields with ⟨response, s'⟩
  rcases ht : t.handleSearch asking (fields.erase "top_k") with ⟨response', t'⟩
  rw [hs] at hnarrow
  rw [ht] at hwide
  obtain rfl : response = _ := hnarrow
  obtain rfl : response' = _ := hwide
  obtain ⟨query, asked, few, hquery, hasked, hfew, hshown⟩ := handleSearch_ok hs
  obtain ⟨query', asked', many, hquery', hasked', hmany, hshown'⟩ := handleSearch_ok ht
  -- both search for the same query, one with the smaller limit
  rw [Field.required_erase fields (by decide), hquery] at hquery'
  cases hquery'
  rw [hk] at hasked
  cases hasked
  have hnone : asked' = none := by
    unfold Field.optional at hasked'
    rw [Fields.get?_erase_self] at hasked'
    cases hasked'
    rfl
  subst hnone
  have hmin : s.searchLimit (some k) ≤ t.searchLimit none := by
    rw [searchLimit, searchLimit, h.topK]
    exact Int.min_le_right _ _
  obtain ⟨hfirst, hlength⟩ := search_narrow h hmin hfew hmany
  have hmany' : many.length ≤ (max 0 s.topK).toNat := by
    rw [searchLimit, ← h.topK] at hlength
    omega
  refine ⟨few.map hitValue, many.map hitValue, hshown, hshown', ?_, ?_, ?_⟩
  · have hlimit : (max 0 (min k s.topK)).toNat = (s.searchLimit (some k)).toNat := by
      rw [searchLimit]
      omega
    rw [hlimit, ← List.map_take, ← hfirst]
  · rw [List.length_map, hfirst, List.length_take]
    omega
  · rw [List.length_map]
    exact hmany'

namespace Sample

/-- A store of three points, the best of them last. -/
def stored : Client :=
  ⟨.text "code", some ⟨some 1, [⟨.number 0, [-1], [("filename", .text "a.py")]⟩,
    ⟨.number 1, [0], [("filename", .text "b.py")]⟩,
    ⟨.number 2, [2], [("filename", .text "c.py")]⟩]⟩, [], []⟩

/-- A service that shows up to two of them. -/
def service : Service Unit := make (Pass.Sample.indexer "a") 2 (Pass.Sample.workspace stored)

/-- A request for one of them. -/
def request : Request :=
  ⟨"POST", "/api/search", [], .json (.dict [("query", .text "f"), ("top_k", .int 1)])⟩

/-- Whether a document was sent. -/
def isSent : Response → Bool
  | .json 200 _ => true
  | _ => false

theorem exists_of_isSent {response : Response} (h : isSent response = true) :
    ∃ body, response = .json 200 body := by
  unfold isSent at h
  split at h
  · exact ⟨_, rfl⟩
  · cases h

end Sample

/-- A request for one of the hits and then the same without the number. -/
theorem request_narrows_one : ∃ narrow wide few many,
    (Sample.service.answer ask Sample.request).1 = .json 200 narrow ∧
    ((Sample.service.answer ask Sample.request).2.answer ask (Sample.request.without "top_k")).1 =
      .json 200 wide ∧
    (Response.json 200 narrow).results? = some few ∧
    (Response.json 200 wide).results? = some many ∧
    few = many.take 1 ∧ many.length ≤ 2 := by
  obtain ⟨hsent, hsent'⟩ : Sample.isSent (Sample.service.answer ask Sample.request).1 = true ∧
      Sample.isSent ((Sample.service.answer ask Sample.request).2.answer ask
        (Sample.request.without "top_k")).1 = true := by decide +kernel
  obtain ⟨narrow, hnarrow⟩ := Sample.exists_of_isSent hsent
  obtain ⟨wide, hwide⟩ := Sample.exists_of_isSent hsent'
  have halike : Alike ask Sample.service (Sample.service.answer ask Sample.request).2 :=
    alike_answer (fun _ _ _ => rfl) rfl rfl
  obtain ⟨few, many, hfew, hmany, hfirst, -, hlength⟩ :=
    request_narrows halike (r := Sample.request) rfl rfl (k := 1) rfl hnarrow hwide
  exact ⟨narrow, wide, few, many, hnarrow, hwide, hfew, hmany, hfirst, hlength⟩

end Service

end CodeAtlas
