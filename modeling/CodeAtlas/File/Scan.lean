import CodeAtlas.File.Disk
import CodeAtlas.File.Glob
import CodeAtlas.Language
import CodeAtlas.Value.Basic

/-!
# Scanning a project

The source files under a folder, depth first, the entries of each folder in the order of their
names. Linked files count, linked folders do not. A folder that is excluded or cannot be listed is
passed over, and so is a file whose size cannot be told while there is a limit.
-/

namespace CodeAtlas.Scan

/-- Why a scan gives no files. -/
inductive Error
  | source (e : SourceError)
  | setting (e : SettingError)
  /-- A path that cannot be asked about: it leads in a circle or through a file, or is too long. -/
  | lookup (e : LookupError)
deriving DecidableEq, Repr

/-- Which files count. -/
structure Rules where
  /-- Extensions in lower case. -/
  extensions : List Text
  /-- Whether a path below the folder is excluded; a folder's path ends in a slash. -/
  excluded : Text → Except SettingError Bool
  /-- Whether a file of a size counts, `none` being a size that cannot be told. -/
  takesSize : Option Nat → Except SettingError Bool

def Rules.takesName (r : Rules) (name : Text) : Bool :=
  r.extensions.contains (Text.lower (extension name))

/-- Whether a size is within a limit in units of 1024 bytes; a size that cannot be told is not.
There is no limit if it is not positive. -/
def withinLimit (limit : Rat) (size : Option Nat) : Bool :=
  if limit ≤ 0 then true
  else
    match size with
    | some n => decide ((n : Rat) / 1024 ≤ limit)
    | none => false

/-- A path below the scanned folder in writing. -/
def relText (rel : List Text) : Text := Text.intercalate "/" rel

/-! ## One file -/

/-- The size of the file that an entry is or leads to, `none` if it is no file. -/
def fileSize? (d : Disk) (path : List Text) : FileNode → Except Error (Option Nat)
  | .file content => .ok (some content.length)
  | .folder _ => .ok none
  | .link _ =>
    match d.stat path with
    | .ok (.file content) => .ok (some content.length)
    | .ok _ | .error .missing => .ok none
    | .error e => .error (.lookup e)

/-- The entry itself, if it is a file that counts. -/
def visitFile (d : Disk) (r : Rules) (base rel : List Text) (n : FileNode) :
    Except Error (List (List Text)) := do
  match ← fileSize? d (base ++ rel) n with
  | none => return []
  | some size =>
    if !r.takesName (rel.getLast?.getD "") then return []
    else
      match r.excluded (relText rel) with
      | .error e => throw (.setting e)
      | .ok true => return []
      | .ok false =>
        let known := if d.unsized.contains (base ++ rel) then none else some size
        match r.takesSize known with
        | .error e => throw (.setting e)
        | .ok taken => return if taken then [rel] else []

/-! ## Folders -/

/-- The results of entries in the order of their names. -/
def inNameOrder (results : List (Text × Except Error (List (List Text)))) :
    Except Error (List (List Text)) := do
  let sorted := sortBy (fun a b => !decide (b.1 < a.1)) results
  let lists ← sorted.mapM (·.2)
  return lists.flatten

mutual

/-- The files that an entry at `rel` contributes. -/
def visit (d : Disk) (r : Rules) (base rel : List Text) :
    FileNode → Except Error (List (List Text))
  | .folder entries =>
    match r.excluded (relText rel ++ "/") with
    | .error e => .error (.setting e)
    | .ok true => .ok []
    | .ok false =>
      if d.unlistable.contains (base ++ rel) then .ok []
      else inNameOrder (visitEntries d r base rel entries)
  | .file content => visitFile d r base rel (.file content)
  | .link target => visitFile d r base rel (.link target)

def visitEntries (d : Disk) (r : Rules) (base rel : List Text) :
    List (Text × FileNode) → List (Text × Except Error (List (List Text)))
  | [] => []
  | (name, n) :: rest => (name, visit d r base (rel ++ [name]) n) :: visitEntries d r base rel rest

end

/-- The source files below the folder `base`, as paths from there. The rules are looked at once the
folder has been listed. -/
def files (d : Disk) (base : SourcePath) (rules : Except SettingError Rules) :
    Except Error (List (List Text)) :=
  match d.stat base.parts with
  | .ok (.folder entries) =>
    if d.unlistable.contains base.parts then .error (.source (.unlistable base.text))
    else
      match rules with
      | .error e => .error (.setting e)
      | .ok r => inNameOrder (visitEntries d r base.parts [] entries)
  | .error .tooLong => .error (.lookup .tooLong)
  | _ => .error (.source (.notFolder base.text))

/-- Rules of plain extensions and globs. -/
def Rules.plain (extensions globs : List Text) (maxSize : Rat) : Rules :=
  ⟨extensions.map Text.lower, fun path => .ok (Glob.matchesAny globs path),
    fun size => .ok (withinLimit maxSize size)⟩

/-! ## Rules from values -/

/-- Whether one of the listed globs matches, looking at them in order; what is listed need not be
text until it is matched. -/
def matchItems (path : Text) : List Value → Except SettingError Bool
  | [] => .ok false
  | .text g :: rest => if Glob.matches g path then .ok true else matchItems path rest
  | _ :: _ => .error .wrongType

/-- Whether one of the listed globs matches a value, which has to be text unless there are none. -/
def matchesAnyOf (path : Value) (globs : List Value) : Except SettingError Bool :=
  match path, globs with
  | .text s, globs => matchItems s globs
  | _, [] => .ok false
  | _, _ => .error .wrongType

/-- Extensions in lower case. -/
def lowerAll (items : List Value) : Except SettingError (List Text) :=
  items.mapM fun
    | .text s => .ok (Text.lower s)
    | _ => .error .noSuchPart

/-- Whether a file of a size counts under a limit that need not be a number. An infinite limit takes
every size that can be told. -/
def sizeTest (limit : Value) (size : Option Nat) : Except SettingError Bool :=
  match limit with
  | .real x =>
    match x.toRat? with
    | some q => .ok (withinLimit q size)
    | none => .ok (if x = Binary64.infinity false then size.isSome else true)
  | .bool b => .ok (withinLimit (if b then 1 else 0) size)
  | .int i => .ok (withinLimit i size)
  | _ => .error .wrongType

/-- The rules that values give. -/
def Rules.ofValues (extensions globs maxSize : Value) : Except SettingError Rules := do
  let exts ← lowerAll (← extensions.elements)
  let items ← globs.elements
  return ⟨exts, (matchItems · items), sizeTest maxSize⟩

theorem matchItems_text (path : Text) (globs : List Text) :
    matchItems path (globs.map .text) = .ok (Glob.matchesAny globs path) := by
  induction globs with
  | nil => rfl
  | cons g gs ih =>
    simp only [List.map_cons, matchItems, ih, Glob.matchesAny, List.any_cons]
    cases Glob.matches g path <;> simp

/-- Texts and an integer give plain rules. -/
theorem Rules.ofValues_text (extensions globs : List Text) (maxSize : Int) :
    Rules.ofValues (.list (extensions.map .text)) (.list (globs.map .text)) (.int maxSize) =
      .ok (Rules.plain extensions globs maxSize) := by
  have h : ∀ exts : List Text,
      lowerAll (exts.map .text) = .ok (exts.map Text.lower) := by
    intro exts
    induction exts with
    | nil => rfl
    | cons e es ih =>
      simp only [lowerAll, List.map_cons, List.mapM_cons] at ih ⊢
      rw [ih]
      rfl
  simp only [Rules.ofValues, Value.elements, bind, Except.bind, h, Rules.plain, matchItems_text]
  rfl

/-- The rules of a configuration, for all languages. -/
def rulesOf (globs : Value) (maxSize : Int) : Except SettingError Rules := do
  let items ← globs.elements
  return ⟨Language.allExtensions, (matchItems · items),
    fun size => .ok (withinLimit maxSize size)⟩

/-- The source files below `base` under a configuration; no configuration excludes nothing. -/
def sources (d : Disk) (base : SourcePath) (config : Value) : Except Error (List (List Text)) :=
  let config := if config.truthy then config else .dict []
  match config.field "exclude_globs" (.list []), config.field "max_file_size_kb" (.int 0) with
  | .ok globs, .ok size =>
    match (if size.truthy then size.integer else .ok 0) with
    | .error e => .error (.setting e)
    | .ok n => files d base (rulesOf globs n)
  | .error e, _ => .error (.setting e)
  | _, .error e => .error (.setting e)

end CodeAtlas.Scan
