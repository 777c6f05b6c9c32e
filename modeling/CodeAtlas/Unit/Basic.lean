import CodeAtlas.Digest.PointId
import CodeAtlas.ParseTree
import CodeAtlas.Value.Basic

/-!
# Code units

A unit is a function, method or class of one source file. Its id is unique in the file and its key
in the project. There are two schemes of ids: by position, which shifts when units are added
before it, and by structure, which does not depend on the rest of the file.
-/

namespace CodeAtlas

inductive IdScheme
  | ordinal
  | structural
deriving DecidableEq, Repr

def IdScheme.text : IdScheme → Text
  | .ordinal => "ordinal"
  | .structural => "structural"

def IdScheme.ofText? (name : Text) : Option IdScheme :=
  [IdScheme.ordinal, IdScheme.structural].find? (·.text == name)

structure CodeUnit where
  id : Text
  filePath : Text
  filename : Text
  language : Text
  token : Text
  symbolPath : Text
  codeText : Text
  ordinal : Nat
  span : Span
deriving DecidableEq, Repr

namespace CodeUnit

/-- The id of a unit by its position in the file, which is given in writing. -/
def ordinalId (filename token ordinal : Text) : Text :=
  filename ++ "_" ++ token ++ "_" ++ ordinal

/-- What the structural id of a unit depends on: file, symbol path and how many units of that path
came before, in writing. -/
def structuralName (filePath symbolPath occurrence : Text) : Text :=
  filePath ++ "\x00" ++ symbolPath ++ "\x00" ++ occurrence

/-- The id of a unit by its place in the structure: sixteen hexadecimal digits of a digest. -/
def structuralId (filePath filename token symbolPath occurrence : Text) : Text :=
  let digest := Sha1.digest (structuralName filePath symbolPath occurrence).bytes
  filename ++ "_" ++ token ++ "_" ++ String.ofList ((hexText digest).take 16)

/-- The structural id that a unit gets: the names have to be such that can be encoded. -/
def structuralId? (filePath filename token symbolPath occurrence : Text) :
    Except EncodeError Text :=
  match (structuralName filePath symbolPath occurrence).encodeError? with
  | some e => .error e
  | none => .ok (structuralId filePath filename token symbolPath occurrence)

/-- The name of a unit in the index. -/
def key (u : CodeUnit) : Text := u.filePath ++ "::" ++ u.id

/-- All that is known of a unit. -/
def fields (u : CodeUnit) : Fields :=
  [("id", .text u.id),
   ("file_path", .text u.filePath),
   ("filename", .text u.filename),
   ("language", .text u.language),
   ("token", .text u.token),
   ("symbol_path", .text u.symbolPath),
   ("code_text", .text u.codeText),
   ("ordinal", .int u.ordinal),
   ("start_byte", .int u.span.startByte),
   ("end_byte", .int u.span.endByte),
   ("start_line", .int (u.span.startRow + 1)),
   ("end_line", .int (u.span.endRow + 1)),
   ("index_key", .text u.key)]

/-- What is stored beside the unit's vector. -/
def payload (u : CodeUnit) (project indexedAt : Text) : Fields :=
  [("unit_id", .text u.id),
   ("file_path", .text u.filePath),
   ("filename", .text u.filename),
   ("language", .text u.language),
   ("token", .text u.token),
   ("symbol_path", .text u.symbolPath),
   ("code", .text u.codeText),
   ("ordinal", .text (Integer.text u.ordinal)),
   ("start_byte", .text (Integer.text u.span.startByte)),
   ("end_byte", .text (Integer.text u.span.endByte)),
   ("start_line", .text (Integer.text (u.span.startRow + 1))),
   ("end_line", .text (Integer.text (u.span.endRow + 1))),
   ("project", .text project),
   ("indexed_at", .text indexedAt)]

/-- Whether a key belongs to one of the files. -/
def keyInFiles (key : Text) (files : List Text) : Bool :=
  files.any fun file => (file ++ "::" : Text).toList.isPrefixOf key.toList

end CodeUnit

end CodeAtlas
