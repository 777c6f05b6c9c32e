import CodeAtlas.Text.CodePoint

/-!
# Texts

A text is a sequence of code points. A string is a text without surrogates.
-/

namespace CodeAtlas

structure Text where
  ofList ::
  toList : List CodePoint
deriving DecidableEq, Repr

namespace Text

/-- The text of a string's characters. -/
def ofString (s : String) : Text := .ofList (s.toList.map .char)

instance : Coe String Text := ⟨ofString⟩

def length (t : Text) : Nat := t.toList.length

def isEmpty (t : Text) : Bool := t.toList.isEmpty

instance : Append Text := ⟨fun s t => .ofList (s.toList ++ t.toList)⟩

/-- The texts with `separator` between them. -/
def intercalate (separator : Text) (texts : List Text) : Text :=
  .ofList (separator.toList.intercalate (texts.map toList))

/-- Texts are ordered by their code points, the first that differs deciding. -/
instance : LT Text := ⟨fun s t => s.toList < t.toList⟩

instance (s t : Text) : Decidable (s < t) := inferInstanceAs (Decidable (s.toList < t.toList))

@[simp] theorem toList_ofList (cs : List CodePoint) : (ofList cs).toList = cs := rfl

@[simp] theorem ofList_toList (t : Text) : ofList t.toList = t := rfl

theorem toList_inj {s t : Text} : s.toList = t.toList ↔ s = t := by
  cases s
  cases t
  simp

@[simp] theorem toList_ofString (s : String) : (ofString s).toList = s.toList.map .char := rfl

@[simp] theorem toList_append (s t : Text) : (s ++ t).toList = s.toList ++ t.toList := rfl

theorem toList_intercalate (separator : Text) (texts : List Text) :
    (separator.intercalate texts).toList = separator.toList.intercalate (texts.map toList) := rfl

theorem map_char_inj {cs ds : List Char} : cs.map CodePoint.char = ds.map .char ↔ cs = ds :=
  List.map_inj_right fun _ _ h => CodePoint.char.inj h

@[simp] theorem ofString_inj {s t : String} : ofString s = ofString t ↔ s = t := by
  rw [← toList_inj, toList_ofString, toList_ofString, map_char_inj, String.toList_inj]

theorem toList_eq_nil_iff {t : Text} : t.toList = [] ↔ t = "" := by
  rw [← toList_inj]
  rfl

instance : LE Text := ⟨fun s t => s.toList ≤ t.toList⟩

instance : Std.IsLinearOrder Text :=
  .of_le ⟨fun _ _ hst hts => toList_inj.1 (Std.le_antisymm hst hts)⟩ ⟨List.le_trans⟩
    ⟨fun _ _ => List.le_total _ _⟩

instance : Std.LawfulOrderLT Text := ⟨fun _ _ => Std.lt_iff_le_and_not_ge (α := List CodePoint)⟩

theorem append_assoc (s t u : Text) : s ++ t ++ u = s ++ (t ++ u) :=
  toList_inj.1 (List.append_assoc _ _ _)

end Text

end CodeAtlas
