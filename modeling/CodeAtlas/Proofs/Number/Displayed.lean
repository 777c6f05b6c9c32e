import CodeAtlas.Number.Score
import Mathlib.Algebra.Order.Field.Rat
import Mathlib.Data.Nat.Digits.Defs
import Mathlib.Order.WithBot
import Mathlib.Tactic.Linarith
import Mathlib.Tactic.Positivity
import Mathlib.Tactic.Ring

/-!
# Displayed scores

A score is displayed with a fixed number of decimals, rounded to the nearest and a half to the even
digit. `Decimal.read?` reads such a text as a number, on its own terms: digits, a point among them,
a sign before them. It reads what is displayed as the rounded number

    Decimal.read? (s.fixed places) = some (s.displayed places)                    (read?_fixed)

and rounding keeps the order, so a score that is not smaller is not displayed as a smaller number
(`displayed_le`). The root that is rounded is known by its square only: `Nearest` says so.
-/

namespace CodeAtlas

/-! ## Reading decimals -/

namespace Decimal

/-- The number that digits with a point among them write, or the one that is above all others. -/
def magnitude? (cs : List Char) : Option (WithTop ℚ) :=
  if cs = ['i', 'n', 'f'] then some ⊤
  else
    match cs.dropWhile Char.isDigit with
    | '.' :: places =>
      if cs.takeWhile Char.isDigit ≠ [] ∧ places.all Char.isDigit then
        some (((Nat.ofDigitChars 10 (cs.takeWhile Char.isDigit ++ places) 0 : ℚ) /
          10 ^ places.length : ℚ) : WithTop ℚ)
      else none
    | _ => none

def opposite : WithTop ℚ → WithBot (WithTop ℚ)
  | ⊤ => ⊥
  | (q : ℚ) => ((-q : ℚ) : WithTop ℚ)

/-- The number that a text writes, with a minus sign before it or without. -/
def read? (s : String) : Option (WithBot (WithTop ℚ)) :=
  if s.toList.head? = some '-' then (magnitude? s.toList.tail).map opposite
  else (magnitude? s.toList).map (↑)

theorem magnitude?_digits {whole places : List Char} (hne : whole ≠ [])
    (hwhole : ∀ c ∈ whole, c.isDigit = true) (hplaces : ∀ c ∈ places, c.isDigit = true) :
    magnitude? (whole ++ '.' :: places) =
      some (((Nat.ofDigitChars 10 (whole ++ places) 0 : ℚ) / 10 ^ places.length : ℚ) :
        WithTop ℚ) := by
  have hinf : whole ++ '.' :: places ≠ ['i', 'n', 'f'] := by
    intro h
    have hi : 'i' ∈ whole := by
      obtain ⟨d, ds, rfl⟩ := List.exists_cons_of_ne_nil hne
      rw [List.cons_append, List.cons.injEq] at h
      rw [h.1]
      exact List.mem_cons_self
    cases hwhole 'i' hi
  have hdrop : (whole ++ '.' :: places).dropWhile Char.isDigit = '.' :: places := by
    rw [List.dropWhile_append_of_pos hwhole]
    rfl
  have htake : (whole ++ '.' :: places).takeWhile Char.isDigit = whole := by
    rw [List.takeWhile_append_of_pos hwhole]
    exact List.append_nil whole
  unfold magnitude?
  rw [if_neg hinf, hdrop, htake]
  exact if_pos ⟨hne, List.all_eq_true.2 hplaces⟩

end Decimal

namespace Score

/-! ## What is displayed -/

/-- Digits filled up with zeros write the same number. -/
theorem ofDigitChars_padded {places n : Nat} (hplaces : 0 < places) (hn : n < 10 ^ places) :
    (List.replicate (places - (Nat.toDigits 10 n).length) '0' ++ Nat.toDigits 10 n).length =
        places ∧
      ∀ init, Nat.ofDigitChars 10
        (List.replicate (places - (Nat.toDigits 10 n).length) '0' ++ Nat.toDigits 10 n) init =
          10 ^ places * init + n := by
  have hlength : (Nat.toDigits 10 n).length ≤ places := Nat.toDigits_length 10 n places hplaces hn
  have hall : (List.replicate (places - (Nat.toDigits 10 n).length) '0' ++
      Nat.toDigits 10 n).length = places := by
    rw [List.length_append, List.length_replicate]
    omega
  refine ⟨hall, fun init => ?_⟩
  rw [Nat.ofDigitChars_eq_ofDigitChars_zero, hall, Nat.ofDigitChars_append,
    Nat.ofDigitChars_replicate_zero, Nat.mul_zero, Nat.ofDigitChars_ten_toDigits]

/-- A number displayed with decimals consists of digits and a point, and is read as itself with the
point shifted. -/
theorem fixedText_read {places : Nat} (hplaces : 0 < places) (n : Nat) :
    (fixedText places n).toList.head? ≠ some '-' ∧
      Decimal.magnitude? (fixedText places n).toList =
        some (((n : ℚ) / 10 ^ places : ℚ) : WithTop ℚ) := by
  have hlt : n % 10 ^ places < 10 ^ places := Nat.mod_lt n (Nat.pow_pos (by decide))
  obtain ⟨hlength, hvalue⟩ := ofDigitChars_padded hplaces hlt
  have hdigits : ∀ m, ∀ c ∈ Nat.toDigits 10 m, c.isDigit = true := fun m c hc =>
    Nat.isDigit_of_mem_toDigits (by decide) (by decide) hc
  have hpadded : ∀ c ∈ List.replicate (places - (Nat.toDigits 10 (n % 10 ^ places)).length) '0' ++
      Nat.toDigits 10 (n % 10 ^ places), c.isDigit = true := by
    intro c hc
    rcases List.mem_append.1 hc with hc | hc
    · rw [List.eq_of_mem_replicate hc]
      rfl
    · exact hdigits _ c hc
  have htext : (fixedText places n).toList = Nat.toDigits 10 (n / 10 ^ places) ++ '.' ::
      (List.replicate (places - (Nat.toDigits 10 (n % 10 ^ places)).length) '0' ++
        Nat.toDigits 10 (n % 10 ^ places)) := String.toList_ofList
  rw [htext]
  constructor
  · intro h
    have hmem : '-' ∈ Nat.toDigits 10 (n / 10 ^ places) := by
      rw [List.head?_append_of_ne_nil _ Nat.toDigits_ne_nil] at h
      exact List.mem_of_head? h
    cases hdigits _ _ hmem
  · rw [Decimal.magnitude?_digits Nat.toDigits_ne_nil (hdigits _) hpadded, hlength,
      Nat.ofDigitChars_append, Nat.ofDigitChars_ten_toDigits, hvalue, Nat.div_add_mod]

/-- The number as which a score is displayed. -/
def displayed (places : Nat) : Score → WithBot (WithTop ℚ)
  | .nan => ⊥
  | .infinite negative => if negative then ⊥ else ((⊤ : WithTop ℚ) : WithBot (WithTop ℚ))
  | .finite negative square =>
    let q : ℚ := roundedRoot places square.num.natAbs square.den / 10 ^ places
    (((if negative then -q else q : ℚ) : WithTop ℚ) : WithBot (WithTop ℚ))

theorem read?_fixed {places : Nat} (hplaces : 0 < places) {s : Score} (hs : s ≠ .nan) :
    Decimal.read? (s.fixed places) = some (s.displayed places) := by
  cases s with
  | nan => exact absurd rfl hs
  | infinite negative =>
    cases negative <;> simp [Decimal.read?, Decimal.magnitude?, Decimal.opposite, fixed, displayed]
  | finite negative square =>
    obtain ⟨hhead, hread⟩ :=
      fixedText_read hplaces (roundedRoot places square.num.natAbs square.den)
    unfold Decimal.read?
    cases negative with
    | true =>
      have htext : ((Score.finite true square).fixed places).toList =
          '-' :: (fixedText places (roundedRoot places square.num.natAbs square.den)).toList := by
        simp [fixed]
      rw [htext, List.head?_cons, if_pos rfl, List.tail_cons, hread]
      rfl
    | false =>
      have htext : (Score.finite false square).fixed places =
          fixedText places (roundedRoot places square.num.natAbs square.den) := rfl
      rw [htext, if_neg hhead, hread]
      rfl

/-! ## Rounding keeps the order -/

/-- Four times the square of `n + 1 / 2`, in units of which `den` make one. -/
def edge (den n : Nat) : Nat := (2 * n + 1) * (2 * n + 1) * den

/-- The integer nearest to the root of `num / den`: it lies between the edges next to it, and on an
edge the even neighbour is taken. -/
structure Nearest (num den root : Nat) : Prop where
  below : 4 * num ≤ edge den root
  above : ∀ n, root = n + 1 → edge den n ≤ 4 * num
  even : (4 * num = edge den root ∨ ∃ n, root = n + 1 ∧ edge den n = 4 * num) → root % 2 = 0

theorem edge_eq (den n : Nat) : edge den n = 4 * (n * n * den) + 4 * (n * den) + den := by
  unfold edge
  ring

theorem nearest_roundedRoot (places num : Nat) {den : Nat} (hden : 0 < den) :
    Nearest (num * 10 ^ (2 * places)) den (roundedRoot places num den) := by
  unfold roundedRoot
  dsimp only
  change Nearest (num * 10 ^ (2 * places)) den
    (if 4 * (num * 10 ^ (2 * places)) < edge den (floorRoot (num * 10 ^ (2 * places) / den))
      then floorRoot (num * 10 ^ (2 * places) / den)
      else if edge den (floorRoot (num * 10 ^ (2 * places) / den)) < 4 * (num * 10 ^ (2 * places))
        then floorRoot (num * 10 ^ (2 * places) / den) + 1
        else floorRoot (num * 10 ^ (2 * places) / den) +
          floorRoot (num * 10 ^ (2 * places) / den) % 2)
  generalize num * 10 ^ (2 * places) = scaled
  have hle : floorRoot (scaled / den) * floorRoot (scaled / den) * den ≤ scaled :=
    Nat.le_trans (Nat.mul_le_mul_right den (floorRoot_sq_le _)) (Nat.div_mul_le_self scaled den)
  have hlt : scaled < (floorRoot (scaled / den) + 1) * (floorRoot (scaled / den) + 1) * den :=
    (Nat.div_lt_iff_lt_mul hden).1 (lt_floorRoot_succ_sq _)
  generalize floorRoot (scaled / den) = n at hle hlt
  have hedge := edge_eq den n
  have hnext := edge_eq den (n + 1)
  have hsucc : (n + 1) * (n + 1) * den = n * n * den + 2 * (n * den) + den := by ring
  have hmul : (n + 1) * den = n * den + den := by ring
  -- the edge before `n` lies strictly below
  have hbefore : ∀ m, n = m + 1 → edge den m < 4 * scaled := by
    rintro m rfl
    have hm := edge_eq den m
    have hsq : (m + 1) * (m + 1) * den = m * m * den + 2 * (m * den) + den := by ring
    omega
  have hafter : 4 * scaled < edge den (n + 1) := by omega
  split_ifs with hlow hhigh
  · exact ⟨hlow.le, fun m hm => (hbefore m hm).le, by
      rintro (heq | ⟨m, hm, heq⟩)
      · omega
      · exact absurd heq (hbefore m hm).ne⟩
  · refine ⟨hafter.le, fun m hm => ?_, ?_⟩
    · cases hm
      exact hhigh.le
    · rintro (heq | ⟨m, hm, heq⟩)
      · omega
      · cases hm
        omega
  · have htie : 4 * scaled = edge den n := by omega
    rcases Nat.mod_two_eq_zero_or_one n with hn | hn
    · rw [hn, Nat.add_zero]
      exact ⟨htie.le, fun m hm => (hbefore m hm).le, fun _ => hn⟩
    · rw [hn]
      refine ⟨hafter.le, fun m hm => ?_, fun _ => by omega⟩
      cases hm
      exact htie.ge

/-- Of two ratios the smaller one has no larger rounded root. -/
theorem Nearest.mono {num den root num' den' root' : Nat} (h : Nearest num den root)
    (h' : Nearest num' den' root') (hden : 0 < den) (hden' : 0 < den')
    (hle : num * den' ≤ num' * den) : root ≤ root' := by
  by_contra hroot
  obtain ⟨n, rfl⟩ : ∃ n, root = n + 1 := ⟨root - 1, by omega⟩
  have habove := h.above n rfl
  have hbelow := h'.below
  -- both ratios lie between the edge `n` and the edge `root'`, so these are one edge
  have hsqueeze : edge (den * den') n ≤ edge (den * den') root' :=
    calc edge (den * den') n = edge den n * den' := by unfold edge; ring
      _ ≤ 4 * num * den' := Nat.mul_le_mul_right den' habove
      _ = 4 * (num * den') := Nat.mul_assoc ..
      _ ≤ 4 * (num' * den) := Nat.mul_le_mul_left 4 hle
      _ = 4 * num' * den := (Nat.mul_assoc ..).symm
      _ ≤ edge den' root' * den := Nat.mul_le_mul_right den hbelow
      _ = edge (den * den') root' := by unfold edge; ring
  have hn : n ≤ root' := by
    have hsq := Nat.le_of_mul_le_mul_right hsqueeze (Nat.mul_pos hden hden')
    have := Nat.mul_self_le_mul_self_iff.1 hsq
    omega
  obtain rfl : n = root' := by omega
  have hswap : edge den' n * den = edge den n * den' := by unfold edge; ring
  have hratio : 4 * num * den' ≤ 4 * num' * den := by
    rw [Nat.mul_assoc, Nat.mul_assoc]
    exact Nat.mul_le_mul_left 4 hle
  have hnum : edge den n = 4 * num := by
    refine Nat.le_antisymm habove (Nat.le_of_mul_le_mul_right ?_ hden')
    exact hratio.trans (hswap ▸ Nat.mul_le_mul_right den hbelow)
  have hnum' : 4 * num' = edge den' n := by
    refine Nat.le_antisymm hbelow (Nat.le_of_mul_le_mul_right ?_ hden)
    rw [hswap, hnum]
    exact hratio
  have heven := h.even (Or.inr ⟨n, rfl, hnum⟩)
  have heven' := h'.even (Or.inl hnum')
  omega

theorem roundedRoot_mono (places : Nat) {p q : ℚ} (hp : 0 ≤ p) (hpq : p ≤ q) :
    roundedRoot places p.num.natAbs p.den ≤ roundedRoot places q.num.natAbs q.den := by
  refine (nearest_roundedRoot places p.num.natAbs p.den_pos).mono
    (nearest_roundedRoot places q.num.natAbs q.den_pos) p.den_pos q.den_pos ?_
  have hnum : p.num * q.den ≤ q.num * p.den := (Rat.le_iff p q).1 hpq
  have hnat : p.num.natAbs * q.den ≤ q.num.natAbs * p.den := by
    have hp' : (p.num.natAbs : ℤ) = p.num := Int.natAbs_of_nonneg (Rat.num_nonneg.2 hp)
    have hq' : (q.num.natAbs : ℤ) = q.num :=
      Int.natAbs_of_nonneg (Rat.num_nonneg.2 (hp.trans hpq))
    zify
    rw [← Int.natCast_natAbs, ← Int.natCast_natAbs, hp', hq']
    exact hnum
  calc p.num.natAbs * 10 ^ (2 * places) * q.den
      = p.num.natAbs * q.den * 10 ^ (2 * places) := Nat.mul_right_comm ..
    _ ≤ q.num.natAbs * p.den * 10 ^ (2 * places) := Nat.mul_le_mul_right _ hnat
    _ = q.num.natAbs * 10 ^ (2 * places) * p.den := Nat.mul_right_comm ..

theorem roundedRoot_zero (places : Nat) : roundedRoot places 0 1 = 0 := by
  have h := (nearest_roundedRoot places 0 Nat.one_pos).above
  rw [Nat.zero_mul] at h
  cases hroot : roundedRoot places 0 1 with
  | zero => rfl
  | succ n =>
    have hedge := h n hroot
    rw [edge_eq] at hedge
    omega

/-- A score that stands for a number, be it infinite: no number has a negative square. -/
def IsNumber : Score → Prop
  | .nan => False
  | .infinite _ => True
  | .finite _ square => 0 ≤ square

instance : DecidablePred IsNumber
  | .nan => isFalse id
  | .infinite _ => isTrue trivial
  | .finite _ square => inferInstanceAs (Decidable (0 ≤ square))

theorem IsNumber.ne_nan {s : Score} (h : s.IsNumber) : s ≠ .nan := by
  rintro rfl
  exact h

/-- What is not smaller is not displayed as a smaller number. -/
theorem displayed_le (places : Nat) {a b : Score} (ha : a.IsNumber) (hb : b.IsNumber)
    (h : lt a b = false) : b.displayed places ≤ a.displayed places := by
  cases a with
  | nan => exact ha.elim
  | infinite negative =>
    cases negative with
    | false => exact le_top
    | true =>
      cases b with
      | nan => exact hb.elim
      | infinite negative => cases negative <;> simp_all [lt, place, displayed]
      | finite negative square => simp [lt, place] at h
  | finite negative square =>
    cases b with
    | nan => exact hb.elim
    | infinite negative' =>
      cases negative' with
      | false => simp [lt, place] at h
      | true => exact bot_le
    | finite negative' square' =>
      have hsigned : (if negative' then -square' else square') ≤
          if negative then -square else square := by simpa [lt, place] using h
      have ha : 0 ≤ square := ha
      have hb : 0 ≤ square' := hb
      simp only [displayed, WithBot.coe_le_coe, WithTop.coe_le_coe]
      have hmono : ∀ {p q : ℚ}, 0 ≤ p → p ≤ q →
          (roundedRoot places p.num.natAbs p.den / 10 ^ places : ℚ) ≤
            roundedRoot places q.num.natAbs q.den / 10 ^ places := by
        intro p q hp hpq
        have hroots : (roundedRoot places p.num.natAbs p.den : ℚ) ≤
            roundedRoot places q.num.natAbs q.den := Nat.cast_le.2 (roundedRoot_mono places hp hpq)
        exact div_le_div_of_nonneg_right hroots (by positivity)
      have hnonneg : ∀ q : ℚ, (0 : ℚ) ≤ roundedRoot places q.num.natAbs q.den / 10 ^ places :=
        fun q => by positivity
      cases negative with
      | false =>
        cases negative' with
        | false => exact hmono hb hsigned
        | true => exact (neg_nonpos.2 (hnonneg square')).trans (hnonneg square)
      | true =>
        cases negative' with
        | false =>
          -- both are zero
          simp only [if_true, Bool.false_eq_true, if_false] at hsigned
          obtain rfl : square = 0 := by linarith
          obtain rfl : square' = 0 := by linarith
          simp [roundedRoot_zero]
        | true => exact neg_le_neg (hmono ha (neg_le_neg_iff.1 hsigned))

end Score

end CodeAtlas
