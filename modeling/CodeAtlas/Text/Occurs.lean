import CodeAtlas.Text.Basic

/-!
# Occurrence of a part in a text
-/

namespace CodeAtlas.Text

/-- Whether `part` stands somewhere in `cs`. -/
def occursIn (part : List CodePoint) : List CodePoint → Bool
  | [] => part.isEmpty
  | c :: cs => part.isPrefixOf (c :: cs) || occursIn part cs

/-- Whether the text `part` stands somewhere in `s`. -/
def occurs (part s : Text) : Bool := occursIn part.toList s.toList

theorem occursIn_iff (part cs : List CodePoint) :
    occursIn part cs = true ↔ ∃ before after, cs = before ++ part ++ after := by
  induction cs with
  | nil =>
    simp only [occursIn, List.isEmpty_iff]
    constructor
    · rintro rfl
      exact ⟨[], [], rfl⟩
    · rintro ⟨before, after, h⟩
      simp_all
  | cons c cs ih =>
    simp only [occursIn, Bool.or_eq_true, ih, List.isPrefixOf_iff_prefix]
    constructor
    · rintro (⟨after, h⟩ | ⟨before, after, rfl⟩)
      · exact ⟨[], after, by simpa using h.symm⟩
      · exact ⟨c :: before, after, rfl⟩
    · rintro ⟨_ | ⟨b, before⟩, after, h⟩
      · exact Or.inl ⟨after, by simpa using h.symm⟩
      · simp only [List.cons_append, List.cons.injEq] at h
        exact Or.inr ⟨before, after, h.2⟩

end CodeAtlas.Text
