import CodeAtlas.Language
import CodeAtlas.ParseTree
import CodeAtlas.Text.Utf8

/-!
# Tokens

The token of a unit is its name. It is looked for in four places, in this order:

1. the node's child under the language's name field;
2. for a bound kind, the parent's `name` child;
3. the first identifier in pre-order below the innermost node of the chain of search fields, or
   below the node itself if the language has no search field;
4. the fallback token.
-/

namespace CodeAtlas

/-- A place among `length` bytes, counted from the end if it is negative. -/
def bytePlace (length : Nat) (i : Int) : Nat := if i < 0 then (length + i).toNat else i.toNat

/-- The bytes from `start` to `stop`, as far as they exist. -/
def byteSlice (source : List UInt8) (start stop : Int) : List UInt8 :=
  (source.take (bytePlace source.length stop)).drop (bytePlace source.length start)

namespace ParseTree

/-- The text of a node, bad bytes replaced. -/
def textIn (t : ParseTree) (source : List UInt8) : Text :=
  Utf8.decodeLossy (byteSlice source t.span.startByte t.span.endByte)

/-- The first node of one of the kinds, taking nodes off a stack and putting their children on. -/
def firstOfKind (kinds : List Text) : List ParseTree → Option ParseTree
  | [] => none
  | t :: stack =>
    if kinds.contains t.kind then some t else firstOfKind kinds (t.children ++ stack)
termination_by stack => sizes stack
decreasing_by
  rw [sizes_append]
  simp only [sizes, size_eq t]
  omega

/-- The last node of the chain of children under the field, from the node itself on. -/
def innermost (field : Text) (t : ParseTree) : ParseTree :=
  match _h : t.child? field with
  | some c => innermost field c
  | none => t
termination_by sizeOf t
decreasing_by exact sizeOf_lt_of_mem (mem_of_child? _h)

/-- Where identifiers of a unit are looked for. -/
def searchScope (language : Language) (t : ParseTree) : Option ParseTree :=
  match language.searchField with
  | none => some t
  | some field => if field = "" then some t else (t.child? field).map (innermost field)

/-- The node that names a unit, if there is one. -/
def nameNode? (language : Language) (parent : Option ParseTree) (t : ParseTree) :
    Option ParseTree :=
  let own := match language.nameField with
    | some field => if field = "" then none else t.child? field
    | none => none
  let bound :=
    if language.boundKinds.contains t.kind then parent.bind (·.child? "name") else none
  let found :=
    if language.identifierKinds.isEmpty then none
    else (searchScope language t).bind fun scope => firstOfKind language.identifierKinds [scope]
  own <|> bound <|> found

/-- The token of a unit. -/
def token (language : Language) (source : List UInt8) (parent : Option ParseTree)
    (t : ParseTree) : Text :=
  match nameNode? language parent t with
  | some name => name.textIn source
  | none => language.fallbackToken

/-- Whether a node is a unit. -/
def isUnit (language : Language) (parent : Option ParseTree) (t : ParseTree) : Bool :=
  if language.boundKinds.contains t.kind then
    match parent with
    | some p => language.bindingParents.contains p.kind
    | none => false
  else
    language.unitKinds.contains t.kind &&
      (!language.bodyRequired.contains t.kind || (t.child? "body").isSome)

end ParseTree

end CodeAtlas
