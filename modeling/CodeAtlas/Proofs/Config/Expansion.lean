import CodeAtlas.Config.Pattern
import Mathlib.Data.List.Basic
import Mathlib.Tactic.Common

/-!
# Expanding what is expanded

A glob that comes from a pattern is a pattern itself. Expanded once more, it gives itself and then
only what follows it anyway, since trimming and the form for any depth are settled after one time
(`Settled`, `settled_expand_append`). What is left of globs when those that were seen are left out
(`distinct_eq_filter`) is therefore the same after another expansion:

    expandAll (expandAll patterns) = expandAll patterns

The globs stand in the order in which they first come up among the globs of all patterns
(`expandAll_stable`).
-/

namespace CodeAtlas.Pattern

/-! ## Expanding a glob -/

theorem expand_trim (pattern : Text) : expand (Text.trim pattern) = expand pattern := by
  unfold expand
  rw [Text.trim_trim]

/-- A pattern stands for nothing, for itself, or for itself and its form below any folder. -/
theorem expand_cases (pattern : Text) :
    expand pattern = [] ∨ expand pattern = [Text.trim pattern] ∨
      (Text.trim pattern ≠ "" ∧
        expand pattern = [Text.trim pattern, "**/" ++ Text.trim pattern]) := by
  unfold expand
  dsimp only
  split
  · exact Or.inl rfl
  · next hkept =>
    have hne : Text.trim pattern ≠ "" := by
      rintro hempty
      simp [hempty] at hkept
    split
    · exact Or.inr (Or.inl rfl)
    · split
      · exact Or.inr (Or.inr ⟨hne, rfl⟩)
      · exact Or.inr (Or.inl rfl)

/-- The form below any folder is meant for every depth already. -/
theorem expand_nested {pattern : Text} (h : Text.trim pattern ≠ "") :
    expand ("**/" ++ Text.trim pattern) = ["**/" ++ Text.trim pattern] := by
  have htrim : Text.trim ("**/" ++ Text.trim pattern) = "**/" ++ Text.trim pattern := by
    refine Text.trim_eq_self (fun c hc => ?_) (fun c hc => ?_)
    · have hstar : '*' = c := by simpa using hc
      exact hstar ▸ (by decide)
    · rw [Text.toList_append,
        List.getLast?_append_of_ne_nil _ (mt Text.toList_eq_nil_iff.1 h)] at hc
      exact Text.getLast?_trim hc
  unfold expand
  simp [htrim]

/-! ## Settled globs -/

/-- Globs of which each expands to itself and to some that follow it right away. -/
inductive Settled : List Text → Prop
  | nil : Settled []
  | cons {g : Text} {more gs : List Text} : expand g = g :: more → Settled (more ++ gs) →
      Settled (g :: (more ++ gs))

/-- The globs of a pattern are settled. -/
theorem settled_expand_append (pattern : Text) {gs : List Text} (h : Settled gs) :
    Settled (expand pattern ++ gs) := by
  rcases expand_cases pattern with hnone | hone | ⟨hne, htwo⟩
  · rw [hnone]
    exact h
  · have hself := (expand_trim pattern).trans hone
    rw [hone]
    exact .cons hself h
  · have hself := (expand_trim pattern).trans htwo
    rw [htwo]
    exact .cons hself (.cons (expand_nested hne) h)

theorem settled_flatMap (patterns : List Text) : Settled (patterns.flatMap expand) := by
  induction patterns with
  | nil => exact .nil
  | cons pattern patterns ih => exact settled_expand_append pattern ih

/-! ## Leaving out what was seen -/

theorem ne_of_mem_distinct {seen gs : List Text} {g x : Text} (hg : g ∈ seen)
    (hx : x ∈ distinct seen gs) : g ≠ x :=
  fun hgx => ((mem_distinct _ _ _).1 hx).2 (hgx ▸ hg)

/-- The more was seen, the more is left out. -/
theorem distinct_eq_filter {seen seen' extra : List Text}
    (h : ∀ g, g ∈ seen' ↔ g ∈ seen ∨ g ∈ extra) (gs : List Text) :
    distinct seen' gs = (distinct seen gs).filter (· ∉ extra) := by
  induction gs generalizing seen seen' with
  | nil => rfl
  | cons g gs ih =>
    by_cases hseen : g ∈ seen
    · rw [distinct_cons_of_mem ((h g).2 (Or.inl hseen)), distinct_cons_of_mem hseen, ih h]
    · by_cases hextra : g ∈ extra
      · have hsame : ∀ x, x ∈ seen' ↔ x ∈ g :: seen ∨ x ∈ extra := by
          intro x
          rw [h x, List.mem_cons, or_assoc]
          exact ⟨Or.inr, fun hx => hx.elim (fun hxg => Or.inr (hxg ▸ hextra)) id⟩
        rw [distinct_cons_of_mem ((h g).2 (Or.inr hextra)), distinct_cons_of_not_mem hseen,
          List.filter_cons_of_neg (by simpa using hextra), ih hsame]
      · have hnew : g ∉ seen' := fun hg => ((h g).1 hg).elim hseen hextra
        have hmore : ∀ x, x ∈ g :: seen' ↔ x ∈ g :: seen ∨ x ∈ extra := by
          intro x
          rw [List.mem_cons, List.mem_cons, h x, or_assoc]
        rw [distinct_cons_of_not_mem hnew, distinct_cons_of_not_mem hseen,
          List.filter_cons_of_pos (by simpa using hextra), ih hmore]

theorem distinct_append (seen as bs : List Text) :
    distinct seen (as ++ bs) = distinct seen as ++ (distinct seen bs).filter (· ∉ as) := by
  induction as generalizing seen with
  | nil =>
    have hall : (distinct seen bs).filter (· ∉ []) = distinct seen bs := by simp
    rw [List.nil_append, hall, distinct, List.nil_append]
  | cons a as ih =>
    by_cases ha : a ∈ seen
    · have hfilter : (distinct seen bs).filter (· ∉ as) =
          (distinct seen bs).filter (· ∉ a :: as) := by
        refine List.filter_congr fun x hx => ?_
        simp [(ne_of_mem_distinct ha hx).symm]
      rw [List.cons_append, distinct_cons_of_mem ha, distinct_cons_of_mem ha, ih, hfilter]
    · have hfilter : (distinct (a :: seen) bs).filter (· ∉ as) =
          (distinct seen bs).filter (· ∉ a :: as) := by
        have hseen : ∀ g, g ∈ a :: seen ↔ g ∈ seen ∨ g ∈ [a] := by simp [or_comm]
        rw [distinct_eq_filter hseen, List.filter_filter]
        refine List.filter_congr fun x _ => ?_
        simp [Bool.and_comm]
      rw [List.cons_append, distinct_cons_of_not_mem ha, distinct_cons_of_not_mem ha, ih, hfilter,
        List.cons_append]

/-- What follows once more is left out. -/
theorem distinct_append_append (seen as bs : List Text) :
    distinct seen (as ++ (as ++ bs)) = distinct seen (as ++ bs) := by
  have hgone : (distinct seen as).filter (· ∉ as) = [] := by
    rw [List.filter_eq_nil_iff]
    intro g hg
    simpa using ((mem_distinct _ _ _).1 hg).1
  rw [distinct_append seen as (as ++ bs), distinct_append seen as bs, List.filter_append, hgone,
    List.nil_append, List.filter_filter]
  simp only [Bool.and_self]

/-- Expanding what is left of settled globs leaves the same. -/
theorem Settled.distinct_expand {gs : List Text} (h : Settled gs) (seen : List Text) :
    distinct seen ((distinct seen gs).flatMap expand) = distinct seen gs := by
  induction h generalizing seen with
  | nil => rfl
  | @cons g more gs hself _ ih =>
    by_cases hseen : g ∈ seen
    · rw [distinct_cons_of_mem hseen, ih]
    · rw [distinct_cons_of_not_mem hseen, List.flatMap_cons, hself, List.cons_append,
        distinct_cons_of_not_mem hseen]
      -- `more` follows the glob anyway, so that it may as well be there twice
      rw [distinct_append, ih, ← distinct_append, distinct_append_append]

/-! ## The order of the globs -/

/-- In front of the rest, a glob that was seen moves all that is left by one place. -/
theorem pairwise_idxOf_cons {seen gs : List Text} {g : Text} (hg : g ∈ seen)
    (h : (distinct seen gs).Pairwise fun a b => gs.idxOf a < gs.idxOf b) :
    (distinct seen gs).Pairwise fun a b => (g :: gs).idxOf a < (g :: gs).idxOf b := by
  refine h.imp_of_mem fun {a b} ha hb hab => ?_
  rw [List.idxOf_cons_ne gs (ne_of_mem_distinct hg ha),
    List.idxOf_cons_ne gs (ne_of_mem_distinct hg hb)]
  exact Nat.succ_lt_succ hab

/-- What is left stands in the order of its first occurrences. -/
theorem pairwise_distinct (seen gs : List Text) :
    (distinct seen gs).Pairwise fun a b => gs.idxOf a < gs.idxOf b := by
  induction gs generalizing seen with
  | nil => exact List.Pairwise.nil
  | cons g gs ih =>
    by_cases hseen : g ∈ seen
    · rw [distinct_cons_of_mem hseen]
      exact pairwise_idxOf_cons hseen (ih seen)
    · rw [distinct_cons_of_not_mem hseen]
      refine List.pairwise_cons.2 ⟨fun b hb => ?_, pairwise_idxOf_cons List.mem_cons_self (ih _)⟩
      rw [List.idxOf_cons_self, List.idxOf_cons_ne gs (ne_of_mem_distinct List.mem_cons_self hb)]
      exact Nat.succ_pos _

/-- The globs of patterns have no duplicates and are exactly those of each pattern, in the order in
which these first come up. Taken as patterns they stand for themselves, in the same order. -/
theorem expandAll_stable (patterns : List Text) :
    (expandAll patterns).Nodup ∧
      (∀ g, g ∈ expandAll patterns ↔ ∃ p ∈ patterns, g ∈ expand p) ∧
      ((expandAll patterns).Pairwise fun a b =>
        (patterns.flatMap expand).idxOf a < (patterns.flatMap expand).idxOf b) ∧
      expandAll (expandAll patterns) = expandAll patterns :=
  ⟨nodup_expandAll patterns, mem_expandAll patterns, pairwise_distinct [] _,
    (settled_flatMap patterns).distinct_expand []⟩

/-- A folder is named with blanks around it, below any folder, and once more. -/
example : expandAll [" venv/** ", "# none", "**/venv/**", "*.py", "venv/**"] =
    ["venv/**", "**/venv/**", "*.py", "**/*.py"] := by decide +kernel

end CodeAtlas.Pattern
