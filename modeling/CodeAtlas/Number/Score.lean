import CodeAtlas.Number.Binary64

/-!
# Similarity scores

The cosine of two rational vectors is the square root of a rational number, so a score keeps its
sign and its square: scores compare and round exactly. Scores read from outside may also be
infinite or not a number.

* `Score.fixed` writes a score with a given number of decimals, rounded to the nearest and a half
  to the even digit (`floorRoot_sq_le`, `lt_floorRoot_succ_sq` pin the root it uses).
-/

namespace CodeAtlas

/-- The integer part of a square root. -/
def floorRoot (n : Nat) : Nat :=
  if n = 0 then 0
  else
    let r := 2 * floorRoot (n / 4)
    if (r + 1) * (r + 1) ≤ n then r + 1 else r
termination_by n
decreasing_by omega

theorem floorRoot_sq_le (n : Nat) : floorRoot n * floorRoot n ≤ n := by
  induction n using Nat.strongRecOn with
  | _ n ih =>
    unfold floorRoot
    split
    · simp
    · rename_i hn
      simp only
      split
      · assumption
      · have := ih (n / 4) (by omega)
        have h4 : 4 * (n / 4) ≤ n := Nat.mul_div_le n 4
        have : 2 * floorRoot (n / 4) * (2 * floorRoot (n / 4)) =
            4 * (floorRoot (n / 4) * floorRoot (n / 4)) := Nat.mul_mul_mul_comm 2 _ 2 _
        omega

theorem lt_floorRoot_succ_sq (n : Nat) : n < (floorRoot n + 1) * (floorRoot n + 1) := by
  induction n using Nat.strongRecOn with
  | _ n ih =>
    unfold floorRoot
    split
    · omega
    · simp only
      split
      · have := ih (n / 4) (by omega)
        generalize floorRoot (n / 4) = k at *
        have h4 : n / 4 + 1 ≤ (k + 1) * (k + 1) := this
        have hn : n < 4 * (n / 4 + 1) := by omega
        have : (2 * (k + 1)) * (2 * (k + 1)) = 4 * ((k + 1) * (k + 1)) :=
          Nat.mul_mul_mul_comm 2 _ 2 _
        rw [show 2 * k + 1 + 1 = 2 * (k + 1) by omega]
        omega
      · omega

inductive Score
  | nan
  | infinite (negative : Bool)
  /-- The score with this sign whose square is `square`. -/
  | finite (negative : Bool) (square : Rat)
deriving DecidableEq, Repr

namespace Score

/-- The score of an exact number. -/
def ofRat (r : Rat) : Score := .finite (decide (r < 0)) (r * r)

/-- The score of a floating-point number; a negative zero keeps its sign. -/
def ofBinary64 (x : Binary64) : Score :=
  match x.view, x.toRat? with
  | .nan, _ => .nan
  | .infinite negative, _ => .infinite negative
  | .finite negative .., some r => .finite negative (r * r)
  | .finite .., none => .nan

/-- The place of a score in the order: sides first, then the signed square. -/
def place : Score → Option (Int × Rat)
  | .nan => none
  | .infinite negative => some (if negative then -1 else 1, 0)
  | .finite negative square => some (0, if negative then -square else square)

/-- Whether the first score is smaller. What is not a number is smaller than nothing. -/
def lt (a b : Score) : Bool :=
  match a.place, b.place with
  | some (i, x), some (j, y) => decide (i < j) || (i == j && decide (x < y))
  | _, _ => false

/-- The root of `num / den` times `10 ^ places`, rounded to the nearest integer, a half to even. -/
def roundedRoot (places num den : Nat) : Nat :=
  let scaled := num * Nat.pow 10 (2 * places)
  let n := floorRoot (scaled / den)
  let twice := (2 * n + 1) * (2 * n + 1) * den
  if 4 * scaled < twice then n else if twice < 4 * scaled then n + 1 else n + n % 2

/-- `n / 10 ^ places` in writing. -/
def fixedText (places n : Nat) : String :=
  let fraction := Nat.toDigits 10 (n % Nat.pow 10 places)
  let padded := List.replicate (places - fraction.length) '0' ++ fraction
  String.ofList (Nat.toDigits 10 (n / Nat.pow 10 places) ++ '.' :: padded)

/-- The score with `places` decimals. -/
def fixed (places : Nat) : Score → String
  | .nan => "nan"
  | .infinite negative => if negative then "-inf" else "inf"
  | .finite negative square =>
    let magnitude := fixedText places (roundedRoot places square.num.natAbs square.den)
    if negative then "-" ++ magnitude else magnitude

theorem lt_irrefl (a : Score) : lt a a = false := by
  unfold lt
  cases a.place with
  | none => rfl
  | some p =>
    have hi : decide (p.1 < p.1) = false := decide_eq_false (Int.lt_irrefl _)
    have hr : decide (p.2 < p.2) = false := decide_eq_false Rat.lt_irrefl
    change (decide (p.1 < p.1) || (p.1 == p.1 && decide (p.2 < p.2))) = false
    rw [hi, hr, Bool.and_false, Bool.or_false]

end Score

end CodeAtlas
