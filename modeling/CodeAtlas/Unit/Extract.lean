import CodeAtlas.Text.Quoted
import CodeAtlas.Unit.Basic
import CodeAtlas.Unit.Token
import CodeAtlas.Value.Text

/-!
# Extracting units

The units of one file in pre-order of its parse tree. The tree is walked with a stack; `unitNodes`
is the same walk as a recursion over the tree.
-/

namespace CodeAtlas

/-- A unit found in a tree: its node, its token and its symbol path. -/
structure Found where
  node : ParseTree
  token : Text
  symbolPath : Text

/-- A node that waits on the stack, with its parent and the tokens of the units around it. -/
structure Waiting where
  parent : Option ParseTree
  node : ParseTree
  scope : List Text

namespace Extract

/-! ## The walk -/

/-- The scope of a node's children: a unit adds its token. -/
def childScope (language : Language) (source : List UInt8) (w : Waiting) : List Text :=
  if w.node.isUnit language w.parent then
    w.scope ++ [w.node.token language source w.parent]
  else w.scope

/-- What the node itself contributes. -/
def own (language : Language) (source : List UInt8) (w : Waiting) : List Found :=
  if w.node.isUnit language w.parent then
    [⟨w.node, w.node.token language source w.parent,
      Text.intercalate "." (childScope language source w)⟩]
  else []

def nodes (stack : List Waiting) : Nat := ParseTree.sizes (stack.map (·.node))

/-- The units of the nodes on the stack and below, in pre-order. -/
def walk (language : Language) (source : List UInt8) : List Waiting → List Found
  | [] => []
  | w :: stack =>
    own language source w ++
      walk language source
        (w.node.children.map (⟨some w.node, ·, childScope language source w⟩) ++ stack)
termination_by stack => nodes stack
decreasing_by
  simp only [nodes, List.map_append, List.map_map, List.map_cons, ParseTree.sizes_append,
    ParseTree.sizes, ParseTree.size_eq w.node]
  have : ((fun x : Waiting => x.node) ∘ fun x =>
      (⟨some w.node, x, childScope language source w⟩ : Waiting)) = id := rfl
  rw [this, List.map_id]
  omega

mutual

/-- The units of a node and below, by recursion over the tree. -/
def unitNodes (language : Language) (source : List UInt8) (parent : Option ParseTree)
    (scope : List Text) : ParseTree → List Found
  | .node kind field span children =>
    let t : ParseTree := .node kind field span children
    own language source ⟨parent, t, scope⟩ ++
      unitNodesList language source t (childScope language source ⟨parent, t, scope⟩) children

def unitNodesList (language : Language) (source : List UInt8) (parent : ParseTree)
    (scope : List Text) : List ParseTree → List Found
  | [] => []
  | t :: ts =>
    unitNodes language source (some parent) scope t ++ unitNodesList language source parent scope ts

end

/-! ## Units -/

/-- Why a file has no units to give. -/
inductive Error
  /-- A language without a grammar, as it is shown. -/
  | unsupported (shown : Text)
  | encoding (filePath : Text) (e : Utf8.DecodeError)
  | grammar (name reason : Text)
  | brokenSource (filePath language : Text)
  /-- The span of a unit cuts through a character. -/
  | span (e : Utf8.DecodeError)
  /-- A text that cannot be encoded: a source, or a name of which a structural id is made. -/
  | encode (e : EncodeError)
deriving DecidableEq, Repr

def Error.message : Error → Text
  | .unsupported shown => "No grammar registered for language " ++ shown
  | .encoding filePath e => filePath ++ " is not valid UTF-8: " ++ e.message
  | .grammar name reason =>
    "Grammar " ++ Text.quoted name ++ " could not be loaded: " ++ reason
  | .brokenSource filePath language => "Syntax errors in " ++ filePath ++ " (" ++ language ++ ")"
  | .span e => e.message
  | .encode e => e.message

/-- How many units of a symbol path came before. -/
def occurrences (before : List Text) (symbolPath : Text) : Nat := before.count symbolPath

/-- What the units of one file share. -/
structure Origin where
  scheme : IdScheme
  filePath : Text
  language : Text
  source : List UInt8

def Origin.filename (o : Origin) : Text := baseName o.filePath

def unitId (o : Origin) (ordinal : Nat) (before : List Text) (f : Found) :
    Except EncodeError Text :=
  match o.scheme with
  | .ordinal => .ok (CodeUnit.ordinalId o.filename f.token (Integer.text ordinal))
  | .structural =>
    CodeUnit.structuralId? o.filePath o.filename f.token f.symbolPath
      (Integer.text (occurrences before f.symbolPath))

/-- The unit at a node, unless it cannot be named or its span cuts through a character. -/
def unitOf (o : Origin) (ordinal : Nat) (before : List Text) (f : Found) :
    Except Error CodeUnit := do
  let id ← (unitId o ordinal before f).mapError .encode
  match Utf8.decode (byteSlice o.source f.node.span.startByte f.node.span.endByte) with
  | .error e => throw (.span e)
  | .ok code => return {
      id := id
      filePath := o.filePath
      filename := o.filename
      language := o.language
      token := f.token
      symbolPath := f.symbolPath
      codeText := code
      ordinal := ordinal
      span := f.node.span }

/-- The units of what was found, numbered from `ordinal` on; `before` are the symbol paths so
far. -/
def number (o : Origin) (ordinal : Nat) (before : List Text) :
    List Found → Except Error (List CodeUnit)
  | [] => .ok []
  | f :: rest => do
    let u ← unitOf o ordinal before f
    let us ← number o (ordinal + 1) (f.symbolPath :: before) rest
    return u :: us

/-- Loads a grammar by name, giving its parser or the text of an error. -/
abbrev Grammars := Text → Except Text (List UInt8 → Parsed)

/-- How units are extracted. -/
structure Settings where
  scheme : IdScheme
  strict : Bool

/-- The id scheme that a value names. -/
def schemeOf (v : Value) : Except SettingError IdScheme :=
  match v with
  | .text s =>
    match IdScheme.ofText? s with
    | some scheme => .ok scheme
    | none => .error (.scheme v.quoted)
  | _ => .error (.scheme v.quoted)

/-- The units of bytes that are known to be text. -/
def extractText (languages : List Language) (grammars : Grammars) (settings : Settings)
    (source : List UInt8) (tag filePath : Text) : Except Error (List CodeUnit) :=
  match Language.ofTag? languages tag with
  | none => .error (.unsupported (Text.quoted tag))
  | some language =>
    if source.isEmpty then .ok []
    else
      match grammars language.grammar with
      | .error message => .error (.grammar language.grammar message)
      | .ok parse =>
        let parsed := parse source
        if parsed.hasError && settings.strict then .error (.brokenSource filePath tag)
        else
          number ⟨settings.scheme, filePath, tag, source⟩ 0 []
            (walk language source [⟨none, parsed.root, []⟩])

/-- The units of a text, which has to be one that can be encoded. -/
def extractString (languages : List Language) (grammars : Grammars) (settings : Settings)
    (source tag filePath : Text) : Except Error (List CodeUnit) :=
  match Language.ofTag? languages tag, source.asString with
  | none, _ => .error (.unsupported (Text.quoted tag))
  | some _, .error e => .error (.encode e)
  | some _, .ok s => extractText languages grammars settings (Utf8.encode s) tag filePath

/-- The units of the bytes of a file. -/
def extractBytes (languages : List Language) (grammars : Grammars) (settings : Settings)
    (source : List UInt8) (tag filePath : Text) : Except Error (List CodeUnit) :=
  match Language.ofTag? languages tag, Utf8.decode source with
  | none, _ => .error (.unsupported (Text.quoted tag))
  | some _, .error e => .error (.encoding filePath e)
  | some _, .ok _ => extractText languages grammars settings source tag filePath

end Extract

end CodeAtlas
