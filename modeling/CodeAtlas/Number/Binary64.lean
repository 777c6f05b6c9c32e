/-!
# Binary floating point, exactly

A 64-bit floating-point number as the number it stands for: `view` opens it into a sign, a
significand `m` and an exponent `q` with value `± m · 2 ^ q`, and `ofRatio` gives the number
nearest to a ratio, a tie going to the even significand. Nothing is computed in floating point.
-/

namespace CodeAtlas

structure Binary64 where
  bits : UInt64
deriving DecidableEq, Repr

namespace Binary64

/-- What the bits stand for. -/
inductive View
  | finite (negative : Bool) (significand : Nat) (exponent : Int)
  | infinite (negative : Bool)
  | nan
deriving DecidableEq, Repr

def view (x : Binary64) : View :=
  let n := x.bits.toNat
  let negative := n / Nat.pow 2 63 == 1
  let biased : Nat := n / Nat.pow 2 52 % Nat.pow 2 11
  let fraction : Nat := n % Nat.pow 2 52
  if biased == 0 then .finite negative fraction (-1074)
  else if biased == 2047 then if fraction == 0 then .infinite negative else .nan
  else .finite negative (Nat.pow 2 52 + fraction) ((biased : Int) - 1075)

/-- The number with the given sign and lower 63 bits. -/
def ofMagnitude (negative : Bool) (magnitude : Nat) : Binary64 :=
  ⟨UInt64.ofNat (if negative then Nat.pow 2 63 + magnitude else magnitude)⟩

def infinity (negative : Bool) : Binary64 := ofMagnitude negative (2047 * Nat.pow 2 52)

def nan : Binary64 := ofMagnitude false (2047 * Nat.pow 2 52 + Nat.pow 2 51)

/-- The quotient rounded to the nearest integer, a half going to the even one. -/
def roundDiv (num den : Nat) : Nat :=
  let q := num / den
  let r := num % den
  if 2 * r < den then q else if den < 2 * r then q + 1 else q + q % 2

/-- `n · 2 ^ e` over `d` as a ratio of naturals. -/
def scale (n d : Nat) (e : Int) : Nat × Nat :=
  match e with
  | .ofNat k => (n * Nat.pow 2 k, d)
  | .negSucc k => (n, d * Nat.pow 2 (k + 1))

/-- The number nearest to `± num / den`. -/
def ofRatio (negative : Bool) (num den : Nat) : Binary64 :=
  if num == 0 then ofMagnitude negative 0
  else
    let guess : Int := (num.log2 : Int) - den.log2 - 52
    let (n, d) := scale num den (-guess)
    let q := max (if n < Nat.pow 2 52 * d then guess - 1 else guess) (-1074)
    let (n, d) := scale num den (-q)
    let m := roundDiv n d
    let (m, q) := if m == Nat.pow 2 53 then (Nat.pow 2 52, q + 1) else (m, q)
    if q > 971 then infinity negative
    else if m < Nat.pow 2 52 then ofMagnitude negative m
    else ofMagnitude negative ((q + 1075).toNat * Nat.pow 2 52 + (m - Nat.pow 2 52))

/-- The number nearest to `± digits · 10 ^ exponent`. -/
def ofDecimal (negative : Bool) (digits : Nat) (exponent : Int) : Binary64 :=
  if digits == 0 then ofMagnitude negative 0
  else
    let size : Int := exponent + (digits.log2 : Int) / 3
    -- far outside the range the exact power is not needed
    if size < -400 - (digits.log2 : Int) then ofMagnitude negative 0
    else if exponent > 400 then infinity negative
    else
      match exponent with
      | .ofNat k => ofRatio negative (digits * Nat.pow 10 k) 1
      | .negSucc k => ofRatio negative digits (Nat.pow 10 (k + 1))

/-- The value of a finite number. -/
def toRat? (x : Binary64) : Option Rat :=
  match x.view with
  | .finite negative m q =>
    let magnitude : Rat := match q with
      | .ofNat k => (m * Nat.pow 2 k : Nat)
      | .negSucc k => mkRat m (Nat.pow 2 (k + 1))
    some (if negative then -magnitude else magnitude)
  | _ => none

/-- The integer part of a finite number, the fraction being dropped. -/
def truncate? (x : Binary64) : Option Int :=
  match x.view with
  | .finite negative m q =>
    let magnitude : Nat := match q with
      | .ofNat k => m * Nat.pow 2 k
      | .negSucc k => m / Nat.pow 2 (k + 1)
    some (if negative then -(magnitude : Int) else magnitude)
  | _ => none

/-- Both zeros. -/
def isZero (x : Binary64) : Bool :=
  match x.view with
  | .finite _ m _ => m == 0
  | _ => false

end Binary64

end CodeAtlas
