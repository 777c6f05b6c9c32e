import CodeAtlas.Number.Shortest
import CodeAtlas.Text.Quoted
import CodeAtlas.Value.Basic

/-!
# Values in writing

`Value.quoted` is the form in which messages show a value, texts between quotes; `Value.plain`
leaves a text as it is.
-/

namespace CodeAtlas

mutual

def Value.quoted : Value → Text
  | .null => "None"
  | .bool b => if b then "True" else "False"
  | .int i => Integer.text i
  | .real x => x.text
  | .text s => Text.quoted s
  | .list items => "[" ++ Text.intercalate ", " (quotedItems items) ++ "]"
  | .dict fields => "\x7b" ++ Text.intercalate ", " (quotedFields fields) ++ "\x7d"

def quotedItems : List Value → List Text
  | [] => []
  | v :: vs => v.quoted :: quotedItems vs

def quotedFields : List (Text × Value) → List Text
  | [] => []
  | (k, v) :: fs => (Text.quoted k ++ ": " ++ v.quoted) :: quotedFields fs

end

def Value.plain : Value → Text
  | .text s => s
  | v => v.quoted

/-- The first `limit` characters of a text. -/
def clipped (limit : Nat) (s : Text) : Text := Text.ofList (s.toList.take limit)

def SettingError.message : SettingError → Text
  | .numeral s => "invalid literal for int() with base 10: " ++ clipped 200 (Text.quoted s)
  | .nanInteger => "cannot convert float NaN to integer"
  | .infiniteInteger => "cannot convert float infinity to integer"
  | .wrongType => "value of a wrong type"
  | .noSuchPart => "value has no such part"
  | .scheme shown => "Unknown id scheme " ++ shown ++ ", expected one of ('ordinal', 'structural')"
  | .noCollection => "Either collection_name or repo_path is required"

end CodeAtlas
