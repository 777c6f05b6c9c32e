import CodeAtlas.Text.Blank
import CodeAtlas.Text.Occurs

/-!
# Exclude patterns

A pattern names files or folders to leave out. A pattern that is meant for every depth, an
extension `*.x` or a folder's content `d/**`, also gets its form below any folder. Blank patterns
and comments yield nothing.

* `Pattern.expandAll` keeps the first of equal globs: its result has no duplicates
  (`nodup_expandAll`) and holds exactly the globs of its patterns (`mem_expandAll`).
-/

namespace CodeAtlas.Pattern

/-- The globs that a pattern stands for. -/
def expand (pattern : Text) : List Text :=
  let p := Text.trim pattern
  let cs := p.toList
  if cs.isEmpty || [.char '#'].isPrefixOf cs then []
  else if ("**/" : Text).toList.isPrefixOf cs then [p]
  else if ("*." : Text).toList.isPrefixOf cs || Text.occurs "/**" p then [p, "**/" ++ p]
  else [p]

/-- The globs not seen before, in order. -/
def distinct (seen : List Text) : List Text → List Text
  | [] => []
  | g :: gs => if seen.contains g then distinct seen gs else g :: distinct (g :: seen) gs

/-- The globs of all patterns, each at its first occurrence. -/
def expandAll (patterns : List Text) : List Text := distinct [] (patterns.flatMap expand)

theorem distinct_cons_of_mem {seen : List Text} {g : Text} (h : g ∈ seen) (gs : List Text) :
    distinct seen (g :: gs) = distinct seen gs := by
  rw [distinct, if_pos (List.contains_iff_mem.2 h)]

theorem distinct_cons_of_not_mem {seen : List Text} {g : Text} (h : g ∉ seen)
    (gs : List Text) : distinct seen (g :: gs) = g :: distinct (g :: seen) gs := by
  rw [distinct, if_neg (mt List.contains_iff_mem.1 h)]

theorem mem_distinct (seen gs : List Text) (g : Text) :
    g ∈ distinct seen gs ↔ g ∈ gs ∧ g ∉ seen := by
  induction gs generalizing seen with
  | nil => simp [distinct]
  | cons a gs ih =>
    by_cases ha : a ∈ seen
    · rw [distinct_cons_of_mem ha, ih]
      constructor
      · rintro ⟨h1, h2⟩
        exact ⟨List.mem_cons_of_mem _ h1, h2⟩
      · rintro ⟨h1, h2⟩
        rcases List.mem_cons.1 h1 with rfl | h1
        · exact absurd ha h2
        · exact ⟨h1, h2⟩
    · rw [distinct_cons_of_not_mem ha, List.mem_cons, ih]
      constructor
      · rintro (rfl | ⟨h1, h2⟩)
        · exact ⟨List.mem_cons_self, ha⟩
        · exact ⟨List.mem_cons_of_mem _ h1, fun h' => h2 (List.mem_cons_of_mem _ h')⟩
      · rintro ⟨h1, h2⟩
        rcases List.mem_cons.1 h1 with rfl | h1
        · exact Or.inl rfl
        · by_cases hga : g = a
          · exact Or.inl hga
          · refine Or.inr ⟨h1, fun h' => ?_⟩
            rcases List.mem_cons.1 h' with h' | h'
            · exact hga h'
            · exact h2 h'

theorem mem_expandAll (patterns : List Text) (g : Text) :
    g ∈ expandAll patterns ↔ ∃ p ∈ patterns, g ∈ expand p := by
  simp [expandAll, mem_distinct]

theorem nodup_distinct (seen gs : List Text) : (distinct seen gs).Nodup := by
  induction gs generalizing seen with
  | nil => simp [distinct]
  | cons a gs ih =>
    by_cases ha : a ∈ seen
    · rw [distinct_cons_of_mem ha]
      exact ih seen
    · rw [distinct_cons_of_not_mem ha]
      exact List.nodup_cons.2 ⟨fun h => ((mem_distinct _ _ _).1 h).2 List.mem_cons_self, ih _⟩

theorem nodup_expandAll (patterns : List Text) : (expandAll patterns).Nodup :=
  nodup_distinct [] _

end CodeAtlas.Pattern
