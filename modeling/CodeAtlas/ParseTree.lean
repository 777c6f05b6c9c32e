import CodeAtlas.Text.Basic

/-!
# Parse trees

A node has a kind, the field under which it hangs off its parent, a span and children. `ofRows?`
builds a tree from its nodes in pre-order, each naming its parent's place.
-/

namespace CodeAtlas

/-- The bytes and rows that a node covers; the end byte is not included. A negative byte counts from
the end of the source. -/
structure Span where
  startByte : Int
  endByte : Int
  startRow : Int
  endRow : Int
deriving DecidableEq, Repr

inductive ParseTree
  | node (kind : Text) (field : Option Text) (span : Span) (children : List ParseTree)
deriving Repr

namespace ParseTree

def kind : ParseTree → Text
  | .node kind _ _ _ => kind

def field : ParseTree → Option Text
  | .node _ field _ _ => field

def span : ParseTree → Span
  | .node _ _ span _ => span

def children : ParseTree → List ParseTree
  | .node _ _ _ children => children

/-- The first child that hangs under the field. -/
def child? (t : ParseTree) (field : Text) : Option ParseTree :=
  t.children.find? (·.field == some field)

theorem mem_of_child? {t c : ParseTree} {field : Text} (h : t.child? field = some c) :
    c ∈ t.children := List.mem_of_find?_eq_some h

theorem sizeOf_lt_of_mem {t c : ParseTree} (h : c ∈ t.children) : sizeOf c < sizeOf t := by
  obtain ⟨kind, field, span, children⟩ := t
  have := List.sizeOf_lt_of_mem (show c ∈ children from h)
  simp only [node.sizeOf_spec]
  omega

mutual

/-- The number of nodes. -/
def size : ParseTree → Nat
  | .node _ _ _ children => sizes children + 1

def sizes : List ParseTree → Nat
  | [] => 0
  | t :: ts => t.size + sizes ts

end

theorem size_eq (t : ParseTree) : t.size = sizes t.children + 1 := by
  obtain ⟨kind, field, span, children⟩ := t
  simp [size, ParseTree.children]

theorem sizes_append (ts us : List ParseTree) : sizes (ts ++ us) = sizes ts + sizes us := by
  induction ts with
  | nil => simp [sizes]
  | cons t ts ih => simp [sizes, ih]; omega

mutual

/-- The nodes, each before its children. -/
def preorder : ParseTree → List ParseTree
  | .node kind field span children => .node kind field span children :: preorders children

def preorders : List ParseTree → List ParseTree
  | [] => []
  | t :: ts => t.preorder ++ preorders ts

end

theorem mem_preorder_self (t : ParseTree) : t ∈ t.preorder := by
  obtain ⟨kind, field, span, children⟩ := t
  rw [preorder]
  exact List.mem_cons_self

theorem mem_preorders {t n : ParseTree} {ts : List ParseTree} (ht : t ∈ ts) (hn : n ∈ t.preorder) :
    n ∈ preorders ts := by
  induction ts with
  | nil => cases ht
  | cons u ts ih =>
    rw [preorders, List.mem_append]
    rcases List.mem_cons.1 ht with rfl | ht
    · exact Or.inl hn
    · exact Or.inr (ih ht)

theorem mem_preorder_of_child {t c n : ParseTree} (hc : c ∈ t.children) (hn : n ∈ c.preorder) :
    n ∈ t.preorder := by
  obtain ⟨kind, field, span, children⟩ := t
  rw [preorder]
  exact List.mem_cons_of_mem _ (mem_preorders hc hn)

/-! ## Building -/

/-- A node as it is listed: the place of its parent and the node without children. -/
structure Row where
  parent : Int
  kind : Text
  span : Span
  field : Option Text

/-- Builds the nodes from the last to the first: `waiting` holds the children found so far for
each place. -/
def build (rows : List Row) (place : Nat) : List (Int × ParseTree) :=
  match rows with
  | [] => []
  | row :: rest =>
    let later := build rest (place + 1)
    let mine := (later.filter (·.1 == (place : Int))).map (·.2)
    (row.parent, .node row.kind row.field row.span mine) ::
      later.filter (·.1 != (place : Int))

/-- The tree whose nodes are listed in pre-order; the first one is the root. -/
def ofRows? (rows : List Row) : Option ParseTree := (build rows 0).head?.map (·.2)

/-- A lone root over a whole source. -/
def lone (source : List UInt8) : ParseTree :=
  .node "root" none ⟨0, source.length, 0, source.count 0x0a⟩ []

end ParseTree

/-- What a grammar makes of a source. -/
structure Parsed where
  root : ParseTree
  hasError : Bool

end CodeAtlas
