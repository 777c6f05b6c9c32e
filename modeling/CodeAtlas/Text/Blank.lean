import CodeAtlas.Text.CharSet

/-!
# Blanks and trimming

The blanks are the ASCII spacing and separator controls, the next-line control and the space
separators. Zero-width characters are not blanks.
-/

namespace CodeAtlas.Text

/-- Boundaries of the set of blanks. -/
def blankBounds : List Nat := [
  0x9, 0xe, 0x1c, 0x21, 0x85, 0x86, 0xa0, 0xa1, 0x1680, 0x1681, 0x2000, 0x200b, 0x2028, 0x202a,
  0x202f, 0x2030, 0x205f, 0x2060, 0x3000, 0x3001]

def isBlank (c : CodePoint) : Bool := inBounds blankBounds c

/-- Removes the blanks at the end. -/
def trimEnd (s : Text) : Text :=
  ofList (s.toList.reverse.dropWhile isBlank).reverse

/-- Removes the blanks at both ends. -/
def trim (s : Text) : Text :=
  ofList ((s.toList.dropWhile isBlank).reverse.dropWhile isBlank).reverse

/-- The blanks without the ASCII separator controls. -/
def isSpace (c : CodePoint) : Bool := isBlank c && !(0x1c ≤ c.toNat && c.toNat ≤ 0x1f)

/-- Removes the spaces at both ends. -/
def trimSpaces (s : Text) : Text :=
  ofList ((s.toList.dropWhile isSpace).reverse.dropWhile isSpace).reverse

/-- Whether a text holds blanks only. -/
def areBlank (s : Text) : Bool := s.toList.all isBlank

/-! ## Trimmed texts -/

theorem head?_dropWhile_isBlank {cs : List CodePoint} {c : CodePoint}
    (h : (cs.dropWhile isBlank).head? = some c) : isBlank c = false := by
  have hnot := List.head?_dropWhile_not isBlank cs
  rwa [h] at hnot

theorem getLast?_trim {s : Text} {c : CodePoint} (h : (trim s).toList.getLast? = some c) :
    isBlank c = false := by
  rw [trim, toList_ofList, List.getLast?_reverse] at h
  exact head?_dropWhile_isBlank h

theorem head?_trim {s : Text} {c : CodePoint} (h : (trim s).toList.head? = some c) :
    isBlank c = false := by
  rw [trim, toList_ofList] at h
  -- what is trimmed at the end has no part in the start, unless nothing is left
  have hstart : ((s.toList.dropWhile isBlank).reverse.dropWhile isBlank).reverse <+:
      s.toList.dropWhile isBlank := by
    rw [← List.reverse_suffix, List.reverse_reverse]
    exact List.dropWhile_suffix isBlank
  obtain ⟨rest, hrest⟩ := hstart
  have hhead : (s.toList.dropWhile isBlank).head? = some c := by
    rw [← hrest, List.head?_append, h, Option.some_or]
  exact head?_dropWhile_isBlank hhead

/-- A text with blanks at neither end is trimmed already. -/
theorem trim_eq_self {s : Text} (hfirst : ∀ c, s.toList.head? = some c → isBlank c = false)
    (hlast : ∀ c, s.toList.getLast? = some c → isBlank c = false) : trim s = s := by
  have hkeep : ∀ cs : List CodePoint, (∀ c, cs.head? = some c → isBlank c = false) →
      cs.dropWhile isBlank = cs := by
    intro cs h
    cases cs with
    | nil => rfl
    | cons c cs => rw [List.dropWhile_cons, h c rfl, if_neg Bool.false_ne_true]
  rw [trim, hkeep _ hfirst, hkeep _ (by simpa using hlast), List.reverse_reverse,
    ofList_toList]

theorem trim_trim (s : Text) : trim (trim s) = trim s :=
  trim_eq_self (fun _ => head?_trim) fun _ => getLast?_trim

end CodeAtlas.Text
