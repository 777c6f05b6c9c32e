import Mathlib.Data.List.Forall2

/-!
# Work that may fail

Work in two steps succeeds only if both do (`ok_of_bind`). On a list, work is done on one element
after the other. Either it succeeds on all of them (`forall₂_of_mapM_ok`, `mapM_ok_of_forall₂`), or
it fails as the first element does on which it fails (`mapM_error_iff`).
-/

namespace CodeAtlas

/-- Work in two steps that succeeds does so in both. -/
theorem ok_of_bind {ε γ δ : Type} {m : Except ε γ} {f : γ → Except ε δ} {b : δ}
    (h : m >>= f = .ok b) : ∃ a, m = .ok a ∧ f a = .ok b := by
  cases m with
  | error e => cases h
  | ok a => exact ⟨a, rfl, h⟩

/-- Work on a list that succeeds does so on one element after the other. -/
theorem forall₂_of_mapM_ok {ε γ δ : Type} {f : γ → Except ε δ} {as : List γ} {bs : List δ}
    (h : as.mapM f = .ok bs) : List.Forall₂ (fun a b => f a = .ok b) as bs := by
  induction as generalizing bs with
  | nil =>
    cases h
    exact .nil
  | cons a as ih =>
    rw [List.mapM_cons] at h
    obtain ⟨b, ha, h⟩ := ok_of_bind h
    obtain ⟨bs', has, h⟩ := ok_of_bind h
    cases h
    exact .cons ha (ih has)

/-- Work that succeeds on each element succeeds on the list. -/
theorem mapM_ok_of_forall₂ {ε γ δ : Type} {f : γ → Except ε δ} {as : List γ} {bs : List δ}
    (h : List.Forall₂ (fun a b => f a = .ok b) as bs) : as.mapM f = .ok bs := by
  induction h with
  | nil => rfl
  | cons ha _ ih =>
    rw [List.mapM_cons, ha, ih]
    rfl

/-- Work on the first elements gives the first results. -/
theorem mapM_take {ε γ δ : Type} {f : γ → Except ε δ} {as : List γ} {bs : List δ}
    (h : as.mapM f = .ok bs) (n : Nat) : (as.take n).mapM f = .ok (bs.take n) :=
  mapM_ok_of_forall₂ (List.forall₂_take n (forall₂_of_mapM_ok h))

theorem map_eq_of_mapM_ok {ε γ δ : Type} {f : γ → Except ε δ} {as : List γ} {bs : List δ}
    (h : as.mapM f = .ok bs) : as.map f = bs.map .ok := by
  rw [← List.forall₂_eq_eq_eq, List.forall₂_map_left_iff, List.forall₂_map_right_iff]
  exact forall₂_of_mapM_ok h

/-- Work on a list that succeeds does so on each element, and gives nothing else. -/
theorem of_mapM_ok {ε γ δ : Type} {f : γ → Except ε δ} {as : List γ} {bs : List δ}
    (h : as.mapM f = .ok bs) :
    (∀ a ∈ as, ∃ b ∈ bs, f a = .ok b) ∧ ∀ b ∈ bs, ∃ a ∈ as, f a = .ok b := by
  have heq := map_eq_of_mapM_ok h
  constructor
  · intro a ha
    have hmem : f a ∈ bs.map .ok := heq ▸ List.mem_map_of_mem ha
    obtain ⟨b, hb, hf⟩ := List.mem_map.1 hmem
    exact ⟨b, hb, hf.symm⟩
  · intro b hb
    have hmem : .ok b ∈ as.map f := heq ▸ List.mem_map_of_mem hb
    exact List.mem_map.1 hmem

/-- Work on a list fails as the first element does on which it fails. -/
theorem mapM_error_iff {ε γ δ : Type} {f : γ → Except ε δ} {as : List γ} {e : ε} :
    as.mapM f = .error e ↔ ∃ before a after, as = before ++ a :: after ∧
      (∀ x ∈ before, ∃ b, f x = .ok b) ∧ f a = .error e := by
  induction as with
  | nil => exact ⟨nofun, fun ⟨before, a, after, h, _⟩ => by simp at h⟩
  | cons a as ih =>
    rw [List.mapM_cons]
    cases ha : f a with
    | error e' =>
      constructor
      · rintro ⟨⟩
        exact ⟨[], a, as, rfl, nofun, ha⟩
      · rintro ⟨before, x, after, h, hb, hx⟩
        cases before with
        | nil =>
          cases h
          rw [ha] at hx
          cases hx
          rfl
        | cons y before =>
          cases h
          obtain ⟨b, hy⟩ := hb a List.mem_cons_self
          rw [ha] at hy
          cases hy
    | ok b =>
      have hrest : (do
          let b ← (Except.ok b : Except ε δ)
          let bs ← as.mapM f
          return b :: bs) = .error e ↔ as.mapM f = .error e := by
        cases as.mapM f with
        | error e' => exact Iff.rfl
        | ok bs => exact ⟨nofun, nofun⟩
      rw [hrest, ih]
      constructor
      · rintro ⟨before, x, after, rfl, hb, hx⟩
        refine ⟨a :: before, x, after, rfl, fun y hy => ?_, hx⟩
        rcases List.mem_cons.1 hy with rfl | hy
        · exact ⟨b, ha⟩
        · exact hb y hy
      · rintro ⟨before, x, after, h, hb, hx⟩
        cases before with
        | nil =>
          cases h
          rw [ha] at hx
          cases hx
        | cons y before =>
          cases h
          exact ⟨before, x, after, rfl, fun z hz => hb z (List.mem_cons_of_mem _ hz), hx⟩

theorem exists_of_mapM_error {ε γ δ : Type} {f : γ → Except ε δ} {as : List γ} {e : ε}
    (h : as.mapM f = .error e) : ∃ a ∈ as, f a = .error e := by
  obtain ⟨before, a, after, rfl, -, ha⟩ := mapM_error_iff.1 h
  exact ⟨a, by simp, ha⟩

/-! ## Work that gives nothing -/

theorem mapM_some_iff {γ δ : Type} {f : γ → Option δ} {as : List γ} {bs : List δ} :
    as.mapM f = some bs ↔ as.map f = bs.map some := by
  induction as generalizing bs with
  | nil => cases bs <;> simp
  | cons a as ih =>
    rw [List.mapM_cons, List.map_cons]
    cases ha : f a with
    | none => cases bs <;> simp
    | some b =>
      cases bs with
      | nil => cases as.mapM f <;> simp
      | cons b' bs =>
        rw [List.map_cons, List.cons.injEq, ← ih]
        cases as.mapM f <;> simp

/-- What can be read back from each result can be read back from all. -/
theorem map_of_mapM_some {γ δ : Type} {f : γ → Option δ} {g : δ → γ}
    (hg : ∀ a b, f a = some b → g b = a) {as : List γ} {bs : List δ} (h : as.mapM f = some bs) :
    bs.map g = as := by
  rw [mapM_some_iff] at h
  induction as generalizing bs with
  | nil => simpa using h
  | cons a as ih =>
    cases bs with
    | nil => cases h
    | cons b bs =>
      rw [List.map_cons, List.map_cons, List.cons.injEq] at h
      rw [List.map_cons, hg a b h.1, ih h.2]

/-- Work on a list gives nothing if it does so on an element. -/
theorem mapM_none_iff {γ δ : Type} {f : γ → Option δ} {as : List γ} :
    as.mapM f = none ↔ ∃ a ∈ as, f a = none := by
  induction as with
  | nil => simp
  | cons a as ih =>
    rw [List.mapM_cons, List.exists_mem_cons_iff, ← ih]
    cases f a with
    | none => simp
    | some b => cases as.mapM f <;> simp

end CodeAtlas
