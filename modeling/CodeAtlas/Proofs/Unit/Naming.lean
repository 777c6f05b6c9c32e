import CodeAtlas.Unit.Token
import Mathlib.Data.List.Chain
import Mathlib.Tactic.Common

/-!
# What names a unit

A token has four sources, and the first one that exists is taken: the child under the name field, the
`name` child of the parent for a bound kind, an identifier, the fallback token. `Resolves` states this
rule for each source on its own:

    t.token language source parent = s ↔ Resolves language source parent t s

An identifier is found by two loops. The search takes nodes off a stack, and these are the nodes in
pre-order until one has the kind:

    firstOfKind kinds [t] = t.firstIn kinds                                (firstOfKind_eq_firstIn)

The descent goes down a chain of children under one field. Of all such chains below a node one holds
all others (`FullChain`), and the descent ends at its last node (`FullChain.getLast?_eq`). Both loops
end, the one after a beginning of the pre-order, the other after the full chain (`token_resolved`).
-/

namespace CodeAtlas

namespace ParseTree

/-! ## The first node of a list -/

/-- The first node of a list that has a property. -/
def IsFirst (P : ParseTree → Prop) (ts : List ParseTree) (n : ParseTree) : Prop :=
  P n ∧ ∃ before after, ts = before ++ n :: after ∧ ∀ m ∈ before, ¬ P m

theorem find?_eq_some_iff_isFirst {P : ParseTree → Prop} [DecidablePred P] {ts : List ParseTree}
    {n : ParseTree} : ts.find? (P ·) = some n ↔ IsFirst P ts n := by
  simp [List.find?_eq_some_iff_append, IsFirst]

/-- The child under a field: the first one of that field. -/
def IsUnder (field : Text) (t c : ParseTree) : Prop := IsFirst (·.field = some field) t.children c

theorem child?_eq_some_iff {field : Text} {t c : ParseTree} :
    t.child? field = some c ↔ IsUnder field t c := by
  rw [IsUnder, ← find?_eq_some_iff_isFirst, child?]
  simp only [beq_eq_decide]

theorem eq_none_iff_of_some_iff {found : Option ParseTree} {P : ParseTree → Prop}
    (h : ∀ {n}, found = some n ↔ P n) : found = none ↔ ∀ n, ¬ P n := by
  simp only [Option.eq_none_iff_forall_ne_some, ne_eq, h]

theorem child?_eq_none_iff {field : Text} {t : ParseTree} :
    t.child? field = none ↔ ∀ c, ¬ IsUnder field t c :=
  eq_none_iff_of_some_iff child?_eq_some_iff

theorem IsUnder.unique {field : Text} {t c d : ParseTree} (hc : IsUnder field t c)
    (hd : IsUnder field t d) : c = d :=
  Option.some.inj ((child?_eq_some_iff.2 hc).symm.trans (child?_eq_some_iff.2 hd))

/-! ## The search with a stack -/

mutual

/-- The first node of one of the kinds at a node or below, by recursion over the tree. -/
def firstIn (kinds : List Text) : ParseTree → Option ParseTree
  | .node kind field span children =>
    if kind ∈ kinds then some (.node kind field span children) else firstInList kinds children

def firstInList (kinds : List Text) : List ParseTree → Option ParseTree
  | [] => none
  | t :: ts => (firstIn kinds t).or (firstInList kinds ts)

end

/-- The search turn by turn: the nodes that it takes off the stack, and what it finds. -/
inductive Search (kinds : List Text) :
    List ParseTree → List ParseTree → Option ParseTree → Prop
  | exhausted : Search kinds [] [] none
  | hit {t : ParseTree} {stack : List ParseTree} : t.kind ∈ kinds →
      Search kinds (t :: stack) [t] (some t)
  | miss {t : ParseTree} {stack taken : List ParseTree} {found : Option ParseTree} :
      t.kind ∉ kinds → Search kinds (t.children ++ stack) taken found →
      Search kinds (t :: stack) (t :: taken) found

variable {kinds : List Text}

theorem preorders_append (ts us : List ParseTree) :
    preorders (ts ++ us) = preorders ts ++ preorders us := by
  induction ts with
  | nil => rfl
  | cons t ts ih => rw [List.cons_append, preorders, preorders, ih, List.append_assoc]

/-- A turn takes the first node off what is left in pre-order. -/
theorem preorders_cons (t : ParseTree) (stack : List ParseTree) :
    preorders (t :: stack) = t :: preorders (t.children ++ stack) := by
  obtain ⟨kind, field, span, children⟩ := t
  rw [preorders, preorder, preorders_append, List.cons_append]
  rfl

theorem Search.taken_prefix {stack taken : List ParseTree} {found : Option ParseTree}
    (h : Search kinds stack taken found) : taken <+: preorders stack := by
  induction h with
  | exhausted => exact List.prefix_rfl
  | hit _ =>
    rw [preorders_cons]
    exact List.cons_prefix_cons.2 ⟨rfl, List.nil_prefix⟩
  | miss _ _ ih =>
    rw [preorders_cons]
    exact List.cons_prefix_cons.2 ⟨rfl, ih⟩

/-- The search comes to an end with any stack. -/
theorem exists_search (stack : List ParseTree) :
    ∃ taken, Search kinds stack taken (firstOfKind kinds stack) := by
  induction stack using firstOfKind.induct kinds with
  | case1 =>
    rw [firstOfKind]
    exact ⟨[], .exhausted⟩
  | case2 t stack hkind =>
    rw [firstOfKind, if_pos hkind]
    exact ⟨[t], .hit (List.contains_iff_mem.1 hkind)⟩
  | case3 t stack hkind ih =>
    rw [firstOfKind, if_neg hkind]
    obtain ⟨taken, htaken⟩ := ih
    exact ⟨t :: taken, .miss (mt List.contains_iff_mem.2 hkind) htaken⟩

/-- What is found is the first node of the kinds in what the stack holds in pre-order. -/
theorem Search.found_eq {stack taken : List ParseTree} {found : Option ParseTree}
    (h : Search kinds stack taken found) :
    found = (preorders stack).find? (·.kind ∈ kinds) := by
  induction h with
  | exhausted => rfl
  | hit hkind => rw [preorders_cons, List.find?_cons_of_pos (by simpa using hkind)]
  | miss hkind _ ih => rw [preorders_cons, List.find?_cons_of_neg (by simpa using hkind), ih]

mutual

theorem firstIn_eq_find? (kinds : List Text) :
    ∀ t : ParseTree, t.firstIn kinds = t.preorder.find? (·.kind ∈ kinds)
  | .node kind field span children => by
    rw [firstIn, preorder, firstInList_eq_find?, List.find?_cons]
    by_cases hkind : kind ∈ kinds
    · simp [ParseTree.kind, hkind]
    · simp [ParseTree.kind, hkind]

theorem firstInList_eq_find? (kinds : List Text) :
    ∀ ts : List ParseTree, firstInList kinds ts = (preorders ts).find? (·.kind ∈ kinds)
  | [] => rfl
  | t :: ts => by
    rw [firstInList, preorders, List.find?_append, firstIn_eq_find?, firstInList_eq_find?]

end

theorem preorders_singleton (t : ParseTree) : preorders [t] = t.preorder := by
  rw [preorders, preorders, List.append_nil]

theorem firstOfKind_eq_find? (t : ParseTree) :
    firstOfKind kinds [t] = t.preorder.find? (·.kind ∈ kinds) := by
  obtain ⟨taken, htaken⟩ := exists_search [t]
  rw [htaken.found_eq, preorders_singleton]

/-- The search with a stack finds what the recursion finds. -/
theorem firstOfKind_eq_firstIn (t : ParseTree) : firstOfKind kinds [t] = t.firstIn kinds := by
  rw [firstOfKind_eq_find?, firstIn_eq_find?]

/-! ## The descent along a field -/

/-- A chain below a node: each node of it hangs under the field off the one before. -/
def IsFieldChain (field : Text) (t : ParseTree) (chain : List ParseTree) : Prop :=
  (t :: chain).IsChain (IsUnder field)

/-- The chain below a node that cannot be made longer. It begins with any other. -/
structure FullChain (field : Text) (t : ParseTree) (chain : List ParseTree) : Prop where
  linked : IsFieldChain field t chain
  maximal : ∀ other, IsFieldChain field t other → other <+: chain

namespace FullChain

variable {field : Text} {t : ParseTree} {chain : List ParseTree}

theorem unique {other : List ParseTree} (h : FullChain field t chain)
    (h' : FullChain field t other) : chain = other :=
  (h'.maximal _ h.linked).eq_of_length_le (h.maximal _ h'.linked).length_le

theorem nil (h : ∀ c, ¬ IsUnder field t c) : FullChain field t [] where
  linked := List.isChain_singleton t
  maximal other hother := by
    cases other with
    | nil => exact List.nil_prefix
    | cons c other => exact absurd (List.isChain_cons_cons.1 hother).1 (h c)

theorem cons {c : ParseTree} (hc : IsUnder field t c) (h : FullChain field c chain) :
    FullChain field t (c :: chain) where
  linked := List.isChain_cons_cons.2 ⟨hc, h.linked⟩
  maximal other hother := by
    cases other with
    | nil => exact List.nil_prefix
    | cons d other =>
      obtain ⟨hd, hother⟩ := List.isChain_cons_cons.1 hother
      obtain rfl := hc.unique hd
      exact List.cons_prefix_cons.2 ⟨rfl, h.maximal other hother⟩

end FullChain

theorem innermost_of_child {field : Text} {t c : ParseTree} (h : t.child? field = some c) :
    innermost field t = innermost field c := by
  rw [innermost.eq_def field t]
  split
  · next d hd => rw [Option.some.inj (h.symm.trans hd)]
  · next hnone => exact absurd (h.symm.trans hnone) (Option.some_ne_none c)

theorem innermost_of_no_child {field : Text} {t : ParseTree} (h : t.child? field = none) :
    innermost field t = t := by
  rw [innermost.eq_def field t]
  split
  · next c hc => exact absurd (hc.symm.trans h) (Option.some_ne_none c)
  · rfl

/-- The descent goes through the full chain. -/
theorem exists_fullChain (field : Text) (t : ParseTree) :
    ∃ chain, FullChain field t chain ∧ (t :: chain).getLast? = some (innermost field t) := by
  induction t using innermost.induct field with
  | case1 t c hc ih =>
    obtain ⟨chain, hchain, hlast⟩ := ih
    refine ⟨c :: chain, hchain.cons (child?_eq_some_iff.1 hc), ?_⟩
    rw [List.getLast?_cons_cons, hlast, innermost_of_child hc]
  | case2 t hnone =>
    refine ⟨[], .nil (child?_eq_none_iff.1 hnone), ?_⟩
    rw [innermost_of_no_child hnone, List.getLast?_singleton]

namespace FullChain

variable {field : Text} {t : ParseTree} {chain : List ParseTree}

/-- The descent starts at the child under the field and ends at the last node of the full chain. -/
theorem getLast?_eq (h : FullChain field t chain) :
    chain.getLast? = (t.child? field).map (innermost field) := by
  cases hc : t.child? field with
  | none => rw [h.unique (.nil (child?_eq_none_iff.1 hc))]; rfl
  | some c =>
    obtain ⟨below, hbelow, hlast⟩ := exists_fullChain field c
    rw [h.unique (hbelow.cons (child?_eq_some_iff.1 hc)), hlast]
    rfl

/-- Of the nodes of the full chain the last one is that without a further child. -/
theorem ends_iff (h : FullChain field t chain) {n : ParseTree} (hn : n ∈ chain) :
    (∀ c, ¬ IsUnder field n c) ↔ chain.getLast? = some n := by
  constructor
  · intro hend
    obtain ⟨before, after, rfl⟩ := List.append_of_mem hn
    cases after with
    | nil => exact List.getLast?_concat
    | cons c after =>
      have hlinked := h.linked
      rw [IsFieldChain, List.isChain_cons_append_cons_cons] at hlinked
      exact absurd hlinked.2.1 (hend c)
  · intro hlast c hc
    obtain ⟨before, rfl⟩ := List.getLast?_eq_some_iff.1 hlast
    -- the chain with the further child would be a longer one
    have hlonger : IsFieldChain field t (before ++ [n] ++ [c]) := by
      rw [IsFieldChain, List.append_assoc, List.singleton_append,
        List.isChain_cons_append_cons_cons]
      exact ⟨h.linked, hc, List.isChain_singleton c⟩
    have hlength := (h.maximal _ hlonger).length_le
    simp at hlength

end FullChain

/-! ## The sources of a token -/

/-- What a setting names. An empty name names nothing. -/
def NamesField (setting : Option Text) (field : Text) : Prop :=
  setting = some field ∧ field ≠ ""

variable (language : Language) (parent : Option ParseTree) (t : ParseTree)

/-- The child under the name field. -/
def IsOwnName (n : ParseTree) : Prop :=
  ∃ field, NamesField language.nameField field ∧ IsUnder field t n

/-- For a bound kind, the `name` child of the parent. -/
def IsBoundName (n : ParseTree) : Prop :=
  t.kind ∈ language.boundKinds ∧ ∃ p, parent = some p ∧ IsUnder "name" p n

/-- Where identifiers are looked for: the last node of the full chain of the search field, or the node
itself if there is no search field. -/
def IsSearched (scope : ParseTree) : Prop :=
  (∃ field chain, NamesField language.searchField field ∧ FullChain field t chain ∧
    chain.getLast? = some scope) ∨
  ((∀ field, ¬ NamesField language.searchField field) ∧ scope = t)

/-- The first identifier in pre-order where one is looked for. -/
def IsIdentifier (n : ParseTree) : Prop :=
  ∃ scope, IsSearched language t scope ∧
    IsFirst (·.kind ∈ language.identifierKinds) scope.preorder n

/-- The text of the first source that exists. -/
inductive Resolves (source : List UInt8) : Text → Prop
  | own {n : ParseTree} : IsOwnName language t n → Resolves source (n.textIn source)
  | bound {n : ParseTree} : (∀ m, ¬ IsOwnName language t m) → IsBoundName language parent t n →
      Resolves source (n.textIn source)
  | identifier {n : ParseTree} : (∀ m, ¬ IsOwnName language t m) →
      (∀ m, ¬ IsBoundName language parent t m) → IsIdentifier language t n →
      Resolves source (n.textIn source)
  | fallback : (∀ m, ¬ IsOwnName language t m) → (∀ m, ¬ IsBoundName language parent t m) →
      (∀ m, ¬ IsIdentifier language t m) → Resolves source language.fallbackToken

/-! ## The sources as they are looked up -/

def ownName? : Option ParseTree :=
  match language.nameField with
  | some field => if field = "" then none else t.child? field
  | none => none

def boundName? : Option ParseTree :=
  if language.boundKinds.contains t.kind then parent.bind (·.child? "name") else none

def identifier? : Option ParseTree :=
  if language.identifierKinds.isEmpty then none
  else (searchScope language t).bind fun scope => firstOfKind language.identifierKinds [scope]

theorem nameNode?_eq : nameNode? language parent t =
    (ownName? language t).or ((boundName? language parent t).or (identifier? language t)) :=
  calc
    nameNode? language parent t =
        (ownName? language t <|> boundName? language parent t <|> identifier? language t) := rfl
    _ = (ownName? language t).or ((boundName? language parent t).or (identifier? language t)) := by
        simp only [Option.orElse_eq_orElse, Option.orElse_eq_or]

variable {language parent t} {n : ParseTree}

theorem ownName?_eq_some_iff : ownName? language t = some n ↔ IsOwnName language t n := by
  unfold ownName? IsOwnName NamesField
  cases hfield : language.nameField with
  | none => simp
  | some field =>
    by_cases hempty : field = ""
    · simp [hempty]
    · simp [hempty, child?_eq_some_iff]

theorem ownName?_eq_none_iff : ownName? language t = none ↔ ∀ m, ¬ IsOwnName language t m :=
  eq_none_iff_of_some_iff ownName?_eq_some_iff

theorem boundName?_eq_some_iff :
    boundName? language parent t = some n ↔ IsBoundName language parent t n := by
  simp [boundName?, IsBoundName, Option.bind_eq_some_iff, child?_eq_some_iff]

theorem boundName?_eq_none_iff :
    boundName? language parent t = none ↔ ∀ m, ¬ IsBoundName language parent t m :=
  eq_none_iff_of_some_iff boundName?_eq_some_iff

theorem searchScope_eq_some_iff {scope : ParseTree} :
    searchScope language t = some scope ↔ IsSearched language t scope := by
  unfold searchScope IsSearched NamesField
  cases hfield : language.searchField with
  | none => simp [eq_comm]
  | some field =>
    by_cases hempty : field = ""
    · simp [hempty, eq_comm]
    · dsimp only
      rw [if_neg hempty]
      constructor
      · intro hscope
        obtain ⟨chain, hchain, -⟩ := exists_fullChain field t
        exact Or.inl ⟨field, chain, ⟨rfl, hempty⟩, hchain, hchain.getLast?_eq.trans hscope⟩
      · rintro (⟨_, chain, ⟨hname, -⟩, hchain, hlast⟩ | ⟨hunset, -⟩)
        · cases hname
          exact hchain.getLast?_eq.symm.trans hlast
        · exact absurd ⟨rfl, hempty⟩ (hunset field)

theorem identifier?_eq_some_iff :
    identifier? language t = some n ↔ IsIdentifier language t n := by
  unfold identifier? IsIdentifier
  by_cases hkinds : language.identifierKinds = []
  · simp [hkinds, IsFirst]
  · simp [hkinds, Option.bind_eq_some_iff, searchScope_eq_some_iff, firstOfKind_eq_find?,
      ← find?_eq_some_iff_isFirst]

theorem identifier?_eq_none_iff :
    identifier? language t = none ↔ ∀ m, ¬ IsIdentifier language t m :=
  eq_none_iff_of_some_iff identifier?_eq_some_iff

/-! ## The token -/

variable {source : List UInt8}

theorem resolves_token :
    Resolves language parent t source (t.token language source parent) := by
  unfold token
  rw [nameNode?_eq]
  cases hown : ownName? language t with
  | some n => exact .own (ownName?_eq_some_iff.1 hown)
  | none =>
    rw [ownName?_eq_none_iff] at hown
    cases hbound : boundName? language parent t with
    | some n => exact .bound hown (boundName?_eq_some_iff.1 hbound)
    | none =>
      rw [boundName?_eq_none_iff] at hbound
      cases hident : identifier? language t with
      | some n => exact .identifier hown hbound (identifier?_eq_some_iff.1 hident)
      | none =>
        rw [identifier?_eq_none_iff] at hident
        exact .fallback hown hbound hident

theorem Resolves.token_eq {s : Text} (h : Resolves language parent t source s) :
    t.token language source parent = s := by
  unfold token
  rw [nameNode?_eq]
  cases h with
  | own h => rw [ownName?_eq_some_iff.2 h, Option.some_or]
  | bound hown h =>
    rw [ownName?_eq_none_iff.2 hown, boundName?_eq_some_iff.2 h, Option.none_or, Option.some_or]
  | identifier hown hbound h =>
    rw [ownName?_eq_none_iff.2 hown, boundName?_eq_none_iff.2 hbound, identifier?_eq_some_iff.2 h,
      Option.none_or, Option.none_or]
  | fallback hown hbound hident =>
    rw [ownName?_eq_none_iff.2 hown, boundName?_eq_none_iff.2 hbound,
      identifier?_eq_none_iff.2 hident, Option.none_or, Option.none_or]

/-- A token is the text of the first of its sources that exists. The search for an identifier takes
nodes off in pre-order, comes to an end and finds what the recursion finds. The descent along a field
ends at the last node of the full chain, which alone of the chain has no further child. -/
theorem token_resolved (language : Language) (source : List UInt8) (parent : Option ParseTree)
    (t : ParseTree) :
    (∀ s, t.token language source parent = s ↔ Resolves language parent t source s) ∧
      (∀ kinds scope, firstOfKind kinds [scope] = scope.firstIn kinds ∧
        ∃ taken, taken <+: scope.preorder ∧
          Search kinds [scope] taken (firstOfKind kinds [scope])) ∧
      ∀ field n, ∃ chain, FullChain field n chain ∧
        (n.child? field).map (innermost field) = chain.getLast? ∧
        ∀ m ∈ chain, (∀ c, ¬ IsUnder field m c) ↔ chain.getLast? = some m := by
  refine ⟨fun s => ⟨fun h => h ▸ resolves_token, Resolves.token_eq⟩, fun kinds scope => ?_,
    fun field n => ?_⟩
  · obtain ⟨taken, htaken⟩ := exists_search [scope]
    exact ⟨firstOfKind_eq_firstIn scope, taken, preorders_singleton scope ▸ htaken.taken_prefix,
      htaken⟩
  · obtain ⟨chain, hchain, -⟩ := exists_fullChain field n
    exact ⟨chain, hchain, hchain.getLast?_eq.symm, fun m hm => hchain.ends_iff hm⟩

namespace Sample

/-- The tree of `[[a]]int A::f(){}`. The name of the method is its second identifier, at the end of a
chain of two declarators. -/
def qualified : ParseTree :=
  .node "function_definition" none ⟨0, 17, 0, 0⟩ [
    .node "attribute_declaration" none ⟨0, 5, 0, 0⟩ [
      .node "attribute" none ⟨2, 3, 0, 0⟩ [
        .node "identifier" (some "name") ⟨2, 3, 0, 0⟩ []]],
    .node "primitive_type" (some "type") ⟨5, 8, 0, 0⟩ [],
    .node "function_declarator" (some "declarator") ⟨9, 15, 0, 0⟩ [
      .node "qualified_identifier" (some "declarator") ⟨9, 13, 0, 0⟩ [
        .node "namespace_identifier" (some "scope") ⟨9, 10, 0, 0⟩ [],
        .node "identifier" (some "name") ⟨12, 13, 0, 0⟩ []],
      .node "parameter_list" (some "parameters") ⟨13, 15, 0, 0⟩ []],
    .node "compound_statement" (some "body") ⟨15, 17, 0, 0⟩ []]

end Sample

/-- The attribute stands before the method's name, but not at the end of the chain, which has no further
declarator. -/
theorem qualified_resolved :
    ∃ language ∈ Language.catalog, language.tag = "cpp" ∧
      Resolves language none Sample.qualified (Utf8.encode "[[a]]int A::f(){}") "f" ∧
      ∃ chain m, FullChain "declarator" Sample.qualified chain ∧ m ∈ chain ∧
        m.kind = "qualified_identifier" ∧ ∀ c, ¬ IsUnder "declarator" m c := by
  have htoken : ∃ language ∈ Language.catalog, language.tag = "cpp" ∧
      Sample.qualified.token language (Utf8.encode "[[a]]int A::f(){}") none = "f" := by
    decide +kernel
  obtain ⟨language, hlanguage, htag, htoken⟩ := htoken
  obtain ⟨hresolves, -, hdescends⟩ :=
    token_resolved language (Utf8.encode "[[a]]int A::f(){}") none Sample.qualified
  obtain ⟨chain, hchain, hlast, hends⟩ := hdescends "declarator" Sample.qualified
  have hkind : chain.getLast?.map (·.kind) = some ("qualified_identifier" : Text) := by
    rw [← hlast]
    decide +kernel
  obtain ⟨m, hm, hkind⟩ := Option.map_eq_some_iff.1 hkind
  have hmem := List.mem_of_getLast? hm
  exact ⟨language, hlanguage, htag, (hresolves "f").1 htoken, chain, m, hchain, hmem, hkind,
    (hends m hmem).2 hm⟩

end ParseTree

end CodeAtlas
