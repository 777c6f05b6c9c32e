import CodeAtlas.Proofs.Unit.Distinct

/-!
# Units in pre-order

A node of a tree together with the nodes above it is a `Place`. The places of a tree stand in
pre-order (`ParseTree.places`), and the unit rule looks at a place only: the kind of its node, the
kind of its parent, and whether there is a body. The walk with a stack gives what the recursion over
the tree gives (`walk_eq_unitNodes`), and that is what stands at the places of units:

    walk language source [⟨none, t, []⟩] = (t.unitPlaces language).map (·.found language source)

So the units of a file are those of its unit places in order, and each is named by the units around
it, the outermost first (`units_in_preorder`).
-/

namespace CodeAtlas

/-- A node of a tree with the nodes above it, the nearest first. -/
structure Place where
  above : List ParseTree
  node : ParseTree

namespace ParseTree

mutual

/-- The places of a tree that hangs below other nodes, each before the places below it. -/
def places (above : List ParseTree) : ParseTree → List Place
  | .node kind field span children =>
    let t : ParseTree := .node kind field span children
    ⟨above, t⟩ :: placesList (t :: above) children

def placesList (above : List ParseTree) : List ParseTree → List Place
  | [] => []
  | t :: ts => t.places above ++ placesList above ts

end

mutual

/-- The nodes of the places are the nodes in pre-order. -/
theorem nodes_places (above : List ParseTree) :
    ∀ t : ParseTree, (t.places above).map (·.node) = t.preorder
  | .node kind field span children => by
    rw [places, preorder, List.map_cons, nodes_placesList]

theorem nodes_placesList (above : List ParseTree) :
    ∀ ts : List ParseTree, (placesList above ts).map (·.node) = preorders ts
  | [] => rfl
  | t :: ts => by rw [placesList, preorders, List.map_append, nodes_places, nodes_placesList]

end

end ParseTree

namespace Place

variable (language : Language) (source : List UInt8)

/-- The unit rule. A bound kind is a unit below a binding parent; any other kind is one if it is
listed, and has a body if it must. -/
def IsUnit (p : Place) : Prop :=
  (p.node.kind ∈ language.boundKinds ∧
    ∃ parent, p.above.head? = some parent ∧ parent.kind ∈ language.bindingParents) ∨
  (p.node.kind ∉ language.boundKinds ∧ p.node.kind ∈ language.unitKinds ∧
    (p.node.kind ∈ language.bodyRequired →
      ∃ body ∈ p.node.children, body.field = some ("body" : Text)))

theorem isUnit_iff (p : Place) :
    p.node.isUnit language p.above.head? = true ↔ p.IsUnit language := by
  have hbody : (p.node.child? "body").isSome = true ↔
      ∃ body ∈ p.node.children, body.field = some ("body" : Text) := by
    simp [ParseTree.child?]
  unfold ParseTree.isUnit IsUnit
  by_cases hbound : p.node.kind ∈ language.boundKinds
  · cases habove : p.above.head? with
    | none => simp [hbound]
    | some parent => simp [hbound]
  · by_cases hreq : p.node.kind ∈ language.bodyRequired
    · simp [hbound, hreq, hbody]
    · simp [hbound, hreq]

instance (p : Place) : Decidable (p.IsUnit language) := decidable_of_iff _ (isUnit_iff language p)

/-- The places of the nodes above, the nearest first. -/
def outer : List ParseTree → List Place
  | [] => []
  | t :: above => ⟨above, t⟩ :: outer above

/-- The token of the node at a place. -/
def token (p : Place) : Text := p.node.token language source p.above.head?

/-- The tokens of the units among nodes above, the outermost first. -/
def scope (above : List ParseTree) : List Text :=
  ((outer above).reverse.filter (IsUnit language ·)).map (token language source)

/-- The tokens of the units around a place, the outermost first, and its own one. -/
def symbolPath (p : Place) : Text :=
  Text.intercalate "." (scope language source p.above ++ [p.token language source])

/-- What is found at the place of a unit. -/
def found (p : Place) : Found := ⟨p.node, p.token language source, p.symbolPath language source⟩

/-- A unit adds its token to the scope of what is below it. -/
theorem scope_cons (t : ParseTree) (above : List ParseTree) :
    scope language source (t :: above) = scope language source above ++
      if IsUnit language ⟨above, t⟩ then [token language source ⟨above, t⟩] else [] := by
  unfold scope
  rw [outer, List.reverse_cons, List.filter_append, List.map_append]
  by_cases hu : IsUnit language ⟨above, t⟩
  · simp [hu]
  · simp [hu]

end Place

/-- The places of units, in pre-order. -/
def ParseTree.unitPlaces (language : Language) (t : ParseTree) : List Place :=
  (t.places []).filter (Place.IsUnit language ·)

theorem ParseTree.node_mem_of_mem_unitPlaces {language : Language} {t : ParseTree} {p : Place}
    (h : p ∈ t.unitPlaces language) : p.node ∈ t.preorder := by
  rw [← nodes_places [] t]
  exact List.mem_map_of_mem (List.mem_of_mem_filter h)

namespace Extract

section

variable {language : Language} {source : List UInt8}

/-! ## The stack and the recursion -/

theorem unitNodes_eq (parent : Option ParseTree) (scope : List Text) (t : ParseTree) :
    unitNodes language source parent scope t = own language source ⟨parent, t, scope⟩ ++
      unitNodesList language source t (childScope language source ⟨parent, t, scope⟩)
        t.children := by
  obtain ⟨kind, field, span, children⟩ := t
  rw [unitNodes]
  rfl

theorem unitNodesList_eq_flatMap (parent : ParseTree) (scope : List Text) (ts : List ParseTree) :
    unitNodesList language source parent scope ts =
      ts.flatMap (unitNodes language source (some parent) scope) := by
  induction ts with
  | nil => rfl
  | cons t ts ih => rw [unitNodesList, List.flatMap_cons, ih]

/-- Walking a stack gives for each waiting node in turn what the recursion gives below it. -/
theorem walk_eq_unitNodes (stack : List Waiting) :
    walk language source stack =
      stack.flatMap fun w => unitNodes language source w.parent w.scope w.node := by
  induction stack using walk.induct language source with
  | case1 => rw [walk, List.flatMap_nil]
  | case2 w stack ih =>
    -- the children wait on top of the stack, so they come before what waited already
    rw [walk, ih, List.flatMap_append, List.flatMap_map, List.flatMap_cons, unitNodes_eq,
      unitNodesList_eq_flatMap, List.append_assoc]

/-! ## The recursion and the places -/

/-- What a node waits with at its place. -/
def waitingAt (language : Language) (source : List UInt8) (p : Place) : Waiting :=
  ⟨p.above.head?, p.node, Place.scope language source p.above⟩

theorem childScope_waitingAt (language : Language) (source : List UInt8) (p : Place) :
    childScope language source (waitingAt language source p) =
      Place.scope language source (p.node :: p.above) := by
  rw [Place.scope_cons]
  unfold childScope waitingAt
  by_cases hu : p.IsUnit language
  · rw [if_pos ((Place.isUnit_iff language p).2 hu), if_pos hu]
    rfl
  · rw [if_neg (mt (Place.isUnit_iff language p).1 hu), if_neg hu, List.append_nil]

theorem own_waitingAt (language : Language) (source : List UInt8) (p : Place) :
    own language source (waitingAt language source p) =
      if p.IsUnit language then [p.found language source] else [] := by
  have hpath : Text.intercalate "." (childScope language source (waitingAt language source p)) =
      if p.IsUnit language then p.symbolPath language source
      else Text.intercalate "." (Place.scope language source p.above) := by
    rw [childScope_waitingAt, Place.scope_cons]
    by_cases hu : p.IsUnit language
    · rw [if_pos hu, if_pos hu]
      rfl
    · rw [if_neg hu, if_neg hu, List.append_nil]
  unfold own
  rw [hpath]
  by_cases hu : p.IsUnit language
  · rw [if_pos hu, if_pos hu]
    exact if_pos ((Place.isUnit_iff language p).2 hu)
  · rw [if_neg hu, if_neg hu]
    exact if_neg (mt (Place.isUnit_iff language p).1 hu)

mutual

/-- The recursion finds what stands at the places of units. -/
theorem unitNodes_eq_places (above : List ParseTree) :
    ∀ t : ParseTree,
      unitNodes language source above.head? (Place.scope language source above) t =
        ((t.places above).filter (Place.IsUnit language ·)).map (·.found language source)
  | .node kind field span children => by
    have hown := own_waitingAt language source
      ⟨above, .node kind field span children⟩
    have hscope := childScope_waitingAt language source
      ⟨above, .node kind field span children⟩
    unfold waitingAt at hown hscope
    rw [unitNodes, hown, hscope, unitNodesList_eq_places, ParseTree.places]
    by_cases hu : Place.IsUnit language ⟨above, .node kind field span children⟩
    · rw [if_pos hu, List.filter_cons_of_pos (by simpa using hu), List.map_cons,
        List.singleton_append]
    · rw [if_neg hu, List.filter_cons_of_neg (by simpa using hu), List.nil_append]

theorem unitNodesList_eq_places (parent : ParseTree) (above : List ParseTree) :
    ∀ ts : List ParseTree,
      unitNodesList language source parent (Place.scope language source (parent :: above)) ts =
        ((ParseTree.placesList (parent :: above) ts).filter (Place.IsUnit language ·)).map
          (·.found language source)
  | [] => rfl
  | t :: ts => by
    rw [unitNodesList, ParseTree.placesList, List.filter_append, List.map_append,
      ← unitNodes_eq_places (parent :: above) t, ← unitNodesList_eq_places parent above ts]
    rfl

end

theorem walk_eq_unitPlaces (t : ParseTree) :
    walk language source [⟨none, t, []⟩] =
      (t.unitPlaces language).map (·.found language source) := by
  rw [walk_eq_unitNodes, List.flatMap_cons, List.flatMap_nil, List.append_nil]
  exact unitNodes_eq_places [] t

end

/-! ## Numbered units -/

/-- The unit of what was found: its span, its names and the text that it covers. -/
structure IsUnitOf (source : List UInt8) (f : Found) (u : CodeUnit) : Prop where
  span : u.span = f.node.span
  token : u.token = f.token
  symbolPath : u.symbolPath = f.symbolPath
  codeText : ∃ code, u.codeText = Text.ofString code ∧
    Utf8.decode (byteSlice source f.node.span.startByte f.node.span.endByte) = .ok code

theorem isUnitOf_unitOf {o : Origin} {ordinal : Nat} {before : List Text} {f : Found}
    {u : CodeUnit} (h : unitOf o ordinal before f = .ok u) : IsUnitOf o.source f u := by
  unfold unitOf at h
  obtain ⟨id, -, h⟩ := ok_of_bind h
  split at h
  · cases h
  · next code hcode =>
    cases h
    exact ⟨rfl, rfl, rfl, code, rfl, hcode⟩

/-- Numbering keeps what was found in its order and counts from the first number on. -/
theorem forall₂_number {o : Origin} {ordinal : Nat} {before : List Text} {found : List Found}
    {units : List CodeUnit} (h : number o ordinal before found = .ok units) :
    List.Forall₂ (IsUnitOf o.source) found units ∧
      units.map (·.ordinal) = List.range' ordinal units.length := by
  induction found generalizing ordinal before units with
  | nil =>
    cases h
    exact ⟨.nil, rfl⟩
  | cons f rest ih =>
    obtain ⟨u, us, hu, hus, rfl⟩ := number_cons h
    obtain ⟨hrest, hordinals⟩ := ih hus
    refine ⟨.cons (isUnitOf_unitOf hu) hrest, ?_⟩
    rw [List.map_cons, hordinals, (unitOf_ok hu).2.2.2, List.length_cons, List.range'_succ]

/-- The bytes that a call reads. -/
def Call.bytes (c : Call) : List UInt8 :=
  match c.content with
  | .inl text => text.bytes
  | .inr bytes => bytes

/-- A call that succeeds numbers what the walk over its tree finds. Nothing is parsed if there are no
bytes. -/
theorem Call.result_ok {c : Call} {units : List CodeUnit} (h : c.result = .ok units) :
    (c.bytes = [] ∧ units = []) ∨
      ∃ language parse, Language.ofTag? c.languages c.tag = some language ∧
        c.grammars language.grammar = .ok parse ∧
        number ⟨c.settings.scheme, c.filePath, c.tag, c.bytes⟩ 0 []
          (walk language c.bytes [⟨none, (parse c.bytes).root, []⟩]) = .ok units := by
  have htext : extractText c.languages c.grammars c.settings c.bytes c.tag c.filePath =
      .ok units := by
    unfold result at h
    unfold bytes
    cases hc : c.content with
    | inl text =>
      rw [hc] at h
      obtain ⟨s, rfl, hs⟩ := extractString_ok h
      dsimp only
      rw [Text.bytes_ofString]
      exact hs
    | inr bytes =>
      rw [hc] at h
      exact extractBytes_ok h
  unfold extractText at htext
  split at htext
  · cases htext
  · next language hlanguage =>
    split at htext
    · next hempty =>
      cases htext
      exact Or.inl ⟨List.isEmpty_iff.1 hempty, rfl⟩
    · split at htext
      · cases htext
      · next parse hparse =>
        dsimp only at htext
        split at htext
        · cases htext
        · exact Or.inr ⟨language, parse, hlanguage, hparse, htext⟩

/-- The units of a file are those of the unit places of its tree, one for each in pre-order, numbered
from zero on and named by the units around them. A file without bytes is not parsed and has none. -/
theorem units_in_preorder {c : Call} {units : List CodeUnit} (h : c.result = .ok units) :
    units.map (·.ordinal) = List.range units.length ∧
      ((c.bytes = [] ∧ units = []) ∨
        ∃ language parse, Language.ofTag? c.languages c.tag = some language ∧
          c.grammars language.grammar = .ok parse ∧
          (((parse c.bytes).root.places []).map (·.node) = (parse c.bytes).root.preorder) ∧
          List.Forall₂ (fun p u => u.span = p.node.span ∧
              (∃ code, u.codeText = Text.ofString code ∧
                Utf8.decode (byteSlice c.bytes p.node.span.startByte p.node.span.endByte) =
                  .ok code) ∧
              u.token = p.token language c.bytes ∧
              u.symbolPath = Text.intercalate "."
                (Place.scope language c.bytes p.above ++ [p.token language c.bytes]))
            ((parse c.bytes).root.unitPlaces language) units) := by
  rcases Call.result_ok h with ⟨hempty, rfl⟩ | ⟨language, parse, hlanguage, hparse, hnumber⟩
  · exact ⟨rfl, Or.inl ⟨hempty, rfl⟩⟩
  · obtain ⟨hunits, hordinals⟩ := forall₂_number hnumber
    refine ⟨by rw [hordinals, List.range_eq_range'], Or.inr ⟨language, parse, hlanguage, hparse,
      ParseTree.nodes_places [] _, ?_⟩⟩
    rw [walk_eq_unitPlaces, List.forall₂_map_left_iff] at hunits
    exact hunits.imp fun p u hu => ⟨hu.span, hu.codeText, hu.token, hu.symbolPath⟩

namespace Sample

/-- A class with a method, and a function bound to a name. The function inside the method is bound to
none. -/
def nestedTree : ParseTree :=
  .node "program" none ⟨0, 22, 0, 0⟩ [
    .node "class_declaration" none ⟨0, 14, 0, 0⟩ [
      .node "identifier" (some "name") ⟨6, 7, 0, 0⟩ [],
      .node "class_body" (some "body") ⟨7, 14, 0, 0⟩ [
        .node "method_definition" none ⟨8, 13, 0, 0⟩ [
          .node "property_identifier" (some "name") ⟨8, 9, 0, 0⟩ [],
          .node "arrow_function" none ⟨11, 13, 0, 0⟩ []]]],
    .node "variable_declarator" none ⟨15, 22, 0, 0⟩ [
      .node "identifier" (some "name") ⟨15, 16, 0, 0⟩ [],
      .node "arrow_function" (some "value") ⟨17, 22, 0, 0⟩ []]]

def nested : Call where
  languages := Language.catalog
  grammars := fun _ => .ok fun _ => ⟨nestedTree, false⟩
  settings := ⟨.ordinal, true⟩
  content := .inl "class C{m(){}};f=()=>0"
  tag := "javascript"
  filePath := "a.js"

end Sample

/-- The method is named by its class, the function that follows the class is not. -/
theorem nested_in_preorder :
    ∃ units language, Sample.nested.result = .ok units ∧
      units.map (·.symbolPath) = (["C", "C.m", "f"] : List Text) ∧ units.map (·.ordinal) = [0, 1, 2] ∧
      (Sample.nestedTree.unitPlaces language).map (·.node.span) = units.map (·.span) := by
  have hpaths : Sample.nested.result.toOption.map (·.map (·.symbolPath)) =
      some (["C", "C.m", "f"] : List Text) := by decide +kernel
  cases h : Sample.nested.result with
  | error e =>
    rw [h] at hpaths
    cases hpaths
  | ok units =>
    rw [h] at hpaths
    have hpaths : units.map (·.symbolPath) = (["C", "C.m", "f"] : List Text) := Option.some.inj hpaths
    have hlength : units.length = 3 := by simpa using congrArg List.length hpaths
    obtain ⟨hordinals, ⟨-, rfl⟩ | ⟨language, parse, -, hparse, -, hunits⟩⟩ := units_in_preorder h
    · cases hlength
    · cases hparse
      refine ⟨units, language, rfl, hpaths, by rw [hordinals, hlength]; rfl, ?_⟩
      refine List.forall₂_eq_eq_eq ▸ ?_
      rw [List.forall₂_map_left_iff, List.forall₂_map_right_iff]
      exact hunits.imp fun p u hu => hu.1.symm

end Extract

end CodeAtlas
