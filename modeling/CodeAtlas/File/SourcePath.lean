import CodeAtlas.Text.Lowercase

/-!
# Paths

A path is a root and named parts; empty parts and `.` are dropped when it is read, `..` is kept.
Two leading slashes are a root of their own. The extension of a file name is its last dot and what
follows, dots at the very start not counting.
-/

namespace CodeAtlas

/-- Where a path starts: at the working folder, at `/`, or at `//`. -/
inductive PathRoot
  | relative
  | single
  | double
deriving DecidableEq, Repr

structure SourcePath where
  root : PathRoot
  parts : List Text
deriving DecidableEq, Repr

namespace SourcePath

/-- The texts between slashes. -/
def splitSlash (cs : List CodePoint) : List Text := (cs.splitOn (.char '/')).map Text.ofList

/-- The parts of a written path that name something. -/
def partsOf (s : Text) : List Text :=
  (splitSlash s.toList).filter fun p => p != "" && p != "."

def rootOf : List CodePoint → PathRoot
  | .char '/' :: .char '/' :: .char '/' :: _ => .single
  | .char '/' :: .char '/' :: _ => .double
  | .char '/' :: _ => .single
  | _ => .relative

def ofText (s : Text) : SourcePath := ⟨rootOf s.toList, partsOf s⟩

def rootText : PathRoot → Text
  | .relative => ""
  | .single => "/"
  | .double => "//"

def text (p : SourcePath) : Text :=
  if p.root = .relative && p.parts.isEmpty then "."
  else rootText p.root ++ Text.intercalate "/" p.parts

def isAbsolute (p : SourcePath) : Bool := p.root != .relative

/-- The last part, empty if there is none. -/
def name (p : SourcePath) : Text := p.parts.getLast?.getD ""

/-- `q` as seen from `p`. -/
def join (p q : SourcePath) : SourcePath :=
  if q.isAbsolute then q else ⟨p.root, p.parts ++ q.parts⟩

/-- The text of `p` as seen from the folder `base`, and of `p` itself if it lies outside. -/
def relativeTo (base p : SourcePath) : Text :=
  if p.root = base.root && base.parts.isPrefixOf p.parts then
    text ⟨.relative, p.parts.drop base.parts.length⟩
  else p.text

end SourcePath

/-! ## File names -/

/-- What follows the last slash. -/
def baseName (s : Text) : Text := Text.ofList ((s.toList.splitOn (.char '/')).getLast?.getD [])

/-- The last dot and what follows it, empty if there is no dot. -/
def fromLastDot (cs : List CodePoint) : List CodePoint :=
  match cs.reverse.span (· != .char '.') with
  | (tail, _ :: _) => '.' :: tail.reverse
  | (_, []) => []

/-- The extension of a file name, with its dot. -/
def extension (filename : Text) : Text :=
  Text.ofList (fromLastDot ((baseName filename).toList.dropWhile (· == '.')))

end CodeAtlas
