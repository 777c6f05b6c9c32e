import CodeAtlas.File.SourcePath
import CodeAtlas.Text.Encode

/-!
# A disk

Files, symbolic links and folders, and the places where reading is refused. Absolute paths are
lists of names from the top.

* `Disk.stat` follows links as far as they lead to something;
* `Disk.resolve` gives the path without links, names that do not exist being kept as they are. Where
  links turn in a circle, the rest of the path is kept as it is written.
-/

namespace CodeAtlas

inductive FileNode
  | file (content : List UInt8)
  | link (target : Text)
  | folder (entries : List (Text × FileNode))

namespace FileNode

/-- The node at a path below this one, no link being followed. -/
def find? : FileNode → List Text → Option FileNode
  | n, [] => some n
  | .folder entries, p :: ps =>
    match entries.lookup p with
    | some n => n.find? ps
    | none => none
  | _, _ :: _ => none

def setEntry (entries : List (Text × FileNode)) (name : Text) (n : FileNode) :
    List (Text × FileNode) :=
  match entries with
  | [] => [(name, n)]
  | (k, m) :: rest => if k = name then (name, n) :: rest else (k, m) :: setEntry rest name n

/-- Puts a node at a path below this one, making folders on the way. -/
def put (n : FileNode) (path : List Text) (new : FileNode) : FileNode :=
  match path with
  | [] => new
  | p :: ps =>
    let entries := match n with
      | .folder entries => entries
      | _ => []
    .folder (setEntry entries p (((entries.lookup p).getD (.folder [])).put ps new))

/-- Removes what is at a path below this one. -/
def remove (n : FileNode) : List Text → FileNode
  | [] => n
  | [p] =>
    match n with
    | .folder entries => .folder (entries.filter (·.1 != p))
    | n => n
  | p :: ps =>
    match n with
    | .folder entries =>
      match entries.lookup p with
      | some m => .folder (setEntry entries p (m.remove ps))
      | none => .folder entries
    | n => n

mutual

/-- How many links there are at this node and below. -/
def linkCount : FileNode → Nat
  | .file _ => 0
  | .link _ => 1
  | .folder entries => linkCounts entries

def linkCounts : List (Text × FileNode) → Nat
  | [] => 0
  | (_, n) :: rest => n.linkCount + linkCounts rest

end

end FileNode

/-- A tree from the top folder, with the paths whose listing, size or content is refused. -/
structure Disk where
  top : FileNode
  unlistable : List (List Text)
  unsized : List (List Text)
  unreadable : List (List Text)

/-- Why a path leads nowhere: a name is missing, a file stands where a folder has to, links lead in
a circle, or the path or a name of it is too long. -/
inductive LookupError
  | missing
  | notFolder
  | loop
  | tooLong
deriving DecidableEq, Repr

/-- An absolute path in writing. -/
def pathText (parts : List Text) : Text := SourcePath.text ⟨.single, parts⟩

namespace Disk

def empty : Disk := ⟨.folder [], [], [], []⟩

/-- The node at a path, no link being followed. -/
def raw? (d : Disk) (path : List Text) : Option FileNode := d.top.find? path

/-- Where a link leads from, when it is met in the folder `here`. -/
def linkBase (here : List Text) (target : Text) : List Text :=
  if (SourcePath.ofText target).isAbsolute then [] else here

/-- The steps that the target of a link takes. A step `.` stays where it is, which has to be a
folder, and a slash at the end asks for a folder too. -/
def linkSteps (target : Text) : List Text :=
  let steps : List Text := (SourcePath.splitSlash target.toList).filter (· != "")
  if target.toList.getLast? == some (.char '/') then steps ++ [("." : Text)] else steps

/-- A name takes at most this many bytes. -/
def maxNameBytes : Nat := 255

/-- A path takes fewer bytes than this. -/
def pathByteLimit : Nat := 4096

/-- Walks from the folder `here` along steps; `enter` walks on from where a link leads. -/
def walkSteps (d : Disk) (enter : List Text → List Text → Except LookupError (List Text))
    (here : List Text) : List Text → Except LookupError (List Text)
  | [] => .ok here
  | p :: ps =>
    match d.raw? here with
    | some (.folder entries) =>
      if p = "." then walkSteps d enter here ps
      else if p = ".." then walkSteps d enter here.dropLast ps
      else if maxNameBytes < p.diskSize then .error .tooLong
      else
        match entries.lookup p with
        | none => .error .missing
        | some (.link target) => enter (linkBase here target) (linkSteps target ++ ps)
        | some _ => walkSteps d enter (here ++ [p]) ps
    | some _ => .error .notFolder
    | none => .error .missing

/-- Walks from the folder `here` along `todo`, following at most `links` links. -/
def walk (d : Disk) : Nat → List Text → List Text → Except LookupError (List Text)
  | 0, here, todo => d.walkSteps (fun _ _ => .error .loop) here todo
  | links + 1, here, todo => d.walkSteps (d.walk links) here todo

/-- What a path leads to. -/
def stat (d : Disk) (path : List Text) : Except LookupError FileNode := do
  if pathByteLimit ≤ (pathText path).diskSize then throw .tooLong
  match d.raw? (← d.walk 40 [] path) with
  | some n => .ok n
  | none => .error .missing

/-- A null character, which no path on a disk can hold. -/
def hasNull (name : Text) : Bool := name.toList.contains (.char '\x00')

/-- Why nothing on a disk can have a path. -/
inductive PathError
  | encode (e : EncodeError)
  | nullCharacter
deriving DecidableEq, Repr

/-- What is wrong with a path: it has to be one in bytes, without a null character. -/
def pathError? (path : List Text) : Option PathError :=
  match (pathText path).diskError? with
  | some e => some (.encode e)
  | none => if path.any hasNull then some .nullCharacter else none

/-- Whether a path leads to a file; one that is too long cannot be asked about. -/
def isFile (d : Disk) (path : List Text) : Except LookupError Bool :=
  if (pathError? path).isSome then .ok false
  else
    match d.stat path with
    | .ok (.file _) => .ok true
    | .error .tooLong => .error .tooLong
    | _ => .ok false

/-! ## Paths without links -/

/-- Why a path cannot be told without links: links turn in a circle at a path, or nothing can have
it. -/
inductive ResolveError
  | circular (path : SourcePath)
  | path (e : PathError)
deriving DecidableEq, Repr

/-- The links met so far, each with where it leads, `none` while it is still being followed. -/
abbrev Followed := List (List Text × Option (List Text))

/-- Where following a path has led. -/
inductive Trail
  /-- To a path without links. -/
  | reached (path : List Text)
  /-- To a link that was being followed: its path, and then what was left as it is written. -/
  | circled (path : SourcePath)
deriving DecidableEq, Repr

/-- The target of the link at a path, if there is one that can be asked about. -/
def link? (d : Disk) (path : List Text) : Option Text :=
  if pathByteLimit ≤ (pathText path).diskSize then none
  else
    match d.raw? path with
    | some (.link target) => some target
    | _ => none

/-- The path that steps write. -/
def ofSteps (steps : List Text) : SourcePath := .ofText (Text.intercalate "/" steps)

/-- Follows steps from the folder `here`, whose path has no links; `enter` follows the target of a
link from the folder that the link is in. -/
def followSteps (d : Disk)
    (enter : Followed → List Text → Text → Except ResolveError (Trail × Followed))
    (followed : Followed) (here : List Text) :
    List Text → Except ResolveError (Trail × Followed)
  | [] => .ok (.reached here, followed)
  | p :: ps =>
    if p = "" || p = "." then followSteps d enter followed here ps
    else if p = ".." then followSteps d enter followed here.dropLast ps
    else
      match pathError? (here ++ [p]) with
      | some e => .error (.path e)
      | none =>
        match d.link? (here ++ [p]) with
        | none => followSteps d enter followed (here ++ [p]) ps
        | some target =>
          match followed.lookup (here ++ [p]) with
          | some (some path) => followSteps d enter followed path ps
          | some none => .ok (.circled (.join ⟨.single, here ++ [p]⟩ (ofSteps ps)), followed)
          | none =>
            match enter ((here ++ [p], none) :: followed) here target with
            | .error e => .error e
            | .ok (.circled path, followed) => .ok (.circled (path.join (ofSteps ps)), followed)
            | .ok (.reached path, followed) =>
              followSteps d enter ((here ++ [p], some path) :: followed) path ps

/-- Follows the target of a link, within which at most `links` links are still to be entered. -/
def followLink (d : Disk) :
    Nat → Followed → List Text → Text → Except ResolveError (Trail × Followed)
  | 0, followed, here, _ => .ok (.reached here, followed)
  | links + 1, followed, here, target =>
    d.followSteps (d.followLink links) followed (linkBase here target)
      (SourcePath.splitSlash target.toList)

/-- Drops each `..` together with the name before it. -/
def normalize (parts : List Text) : List Text :=
  parts.foldl (fun (acc : List Text) (p : Text) => if p = ".." then acc.dropLast else acc ++ [p]) []

/-- The path without links of an absolute one. A link is entered once, so no more links are entered
than there are. -/
def resolve (d : Disk) (path : SourcePath) : Except ResolveError SourcePath := do
  let (trail, _) ← d.followSteps (d.followLink d.top.linkCount) [] [] path.parts
  let found : SourcePath := match trail with
    | .reached parts => ⟨.single, parts⟩
    | .circled p => ⟨p.root, normalize p.parts⟩
  match pathError? found.parts with
  | some e => throw (.path e)
  | none =>
    match d.stat found.parts with
    | .error .loop => throw (.circular found)
    | _ => return found

/-! ## Changes -/

/-- Where a path leads without links, or the path itself if that cannot be told. -/
def landing (d : Disk) (path : List Text) : List Text :=
  match d.resolve ⟨.single, path⟩ with
  | .ok p => p.parts
  | .error _ => path

/-- The path of the entry itself: links on the way to it are followed, the entry is not. -/
def entryPath (d : Disk) (path : List Text) : List Text :=
  match path.getLast? with
  | none => []
  | some name => d.landing path.dropLast ++ [name]

def writeFile (d : Disk) (path : List Text) (content : List UInt8) : Disk :=
  { d with top := d.top.put (d.landing path) (.file content) }

def makeLink (d : Disk) (path : List Text) (target : Text) : Disk :=
  { d with top := d.top.put (d.entryPath path) (.link target) }

/-- Makes the folder if there is none yet. -/
def makeFolder (d : Disk) (path : List Text) : Disk :=
  match d.stat path with
  | .ok (.folder _) => d
  | _ => { d with top := d.top.put (d.landing path) (.folder []) }

def remove (d : Disk) (path : List Text) : Disk :=
  { d with top := d.top.remove (d.entryPath path) }

/-! ## Reading -/

/-- The bytes of a file, unless reading it is refused. -/
def read? (d : Disk) (path : List Text) : Option (List UInt8) :=
  if d.unreadable.contains path then none
  else
    match d.stat path with
    | .ok (.file content) => some content
    | _ => none

end Disk

/-- Why a folder or file of the project cannot be read; each carries the path in writing. -/
inductive SourceError
  | notFolder (path : Text)
  | unlistable (path : Text)
  | unreadable (path : Text)
deriving DecidableEq, Repr

def permissionDenied (path : Text) : Text :=
  "[Errno 13] Permission denied: " ++ Text.quoted path

def SourceError.message : SourceError → Text
  | .notFolder path => "Project root is not a readable directory: " ++ path
  | .unlistable path => "Cannot read project root " ++ path ++ ": " ++ permissionDenied path
  | .unreadable path => "Cannot read " ++ path ++ ": " ++ permissionDenied path

end CodeAtlas
