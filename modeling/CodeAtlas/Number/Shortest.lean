import CodeAtlas.Number.Binary64

/-!
# The shortest decimal of a binary number

`digits` gives the fewest decimal digits that read back as the same number, and of those the
nearest to it. `text` writes them: positionally while the first digit lies within four places
after and sixteen before the point, with an exponent of at least two digits beyond that.
-/

namespace CodeAtlas.Binary64

/-- The least `e` with `num / den < 10 ^ e`, looked for upwards from `e`. -/
def ceilLog10 (num den : Nat) (e : Int) : Nat → Int
  | 0 => e
  | fuel + 1 =>
    let below : Bool := match e with
      | .ofNat k => num < den * Nat.pow 10 k
      | .negSucc k => num * Nat.pow 10 (k + 1) < den
    if below then e else ceilLog10 num den (e + 1) fuel

/-- The numbers that round to `m · 2 ^ q`, in quarters of its last place: from `low` to `high`,
both included iff `m` is even. -/
structure Interval where
  low : Nat
  high : Nat
  closed : Bool

def interval (m : Nat) (q : Int) : Interval :=
  { low := if m == Nat.pow 2 52 && q > -1074 then 4 * m - 1 else 4 * m - 2
    high := 4 * m + 2
    closed := m % 2 == 0 }

/-- Whether `d · 10 ^ k` lies in the interval around `m · 2 ^ q`; `unit` is `10 ^ k` in quarters of
the last place, as a ratio. -/
def Interval.holds (i : Interval) (unit : Nat × Nat) (d : Nat) : Bool :=
  let x := d * unit.1
  if i.closed then i.low * unit.2 ≤ x && x ≤ i.high * unit.2
  else i.low * unit.2 < x && x < i.high * unit.2

/-- `10 ^ k / 2 ^ (q - 2)` as a ratio. -/
def gridUnit (k q : Int) : Nat × Nat :=
  let (n, d) := match k with
    | .ofNat a => (Nat.pow 10 a, 1)
    | .negSucc a => (1, Nat.pow 10 (a + 1))
  scale n d (-(q - 2))

/-- The fewest digits from `count` on whose number, times a power of ten, rounds to `m · 2 ^ q`;
`top` is the number of places before the point. Returns digits and power. -/
def shortestFrom (m : Nat) (q top : Int) (count : Nat) : Nat → Nat × Int
  | 0 => (m, q)
  | fuel + 1 =>
    let k := top - count
    let unit := gridUnit k q
    let i := interval m q
    let d := 4 * m * unit.2 / unit.1
    let rest := 4 * m * unit.2 % unit.1
    match i.holds unit d, i.holds unit (d + 1) with
    | true, true =>
      if 2 * rest < unit.1 then (d, k)
      else if unit.1 < 2 * rest then (d + 1, k)
      else (d + d % 2, k)
    | true, false => (d, k)
    | false, true => (d + 1, k)
    | false, false => shortestFrom m q top (count + 1) fuel

/-- The shortest digits of `m · 2 ^ q`, and the power of ten that they count. -/
def digits (m : Nat) (q : Int) : Nat × Int :=
  let (num, den) := scale m 1 q
  let guess : Int := ((num.log2 : Int) - den.log2) * 30103 / 100000 - 1
  shortestFrom m q (ceilLog10 num den guess 5) 1 20

def dropTrailingZeros (n : Nat) (k : Int) : Nat → Nat × Int
  | 0 => (n, k)
  | fuel + 1 => if n != 0 && n % 10 == 0 then dropTrailingZeros (n / 10) (k + 1) fuel else (n, k)

/-- `d · 10 ^ k` in writing; `d` has no trailing zero. -/
def decimalText (d : Nat) (k : Int) : String :=
  let ds := Nat.toDigits 10 d
  let point : Int := ds.length + k
  let chars :=
    if -4 < point && point ≤ 16 then
      if point ≤ 0 then ['0', '.'] ++ List.replicate (-point).toNat '0' ++ ds
      else if point < ds.length then ds.take point.toNat ++ ['.'] ++ ds.drop point.toNat
      else ds ++ List.replicate k.toNat '0' ++ ['.', '0']
    else
      let e := point - 1
      let exponent := Nat.toDigits 10 e.natAbs
      let fraction := if ds.length == 1 then [] else '.' :: ds.drop 1
      ds.take 1 ++ fraction ++ ['e', if e < 0 then '-' else '+'] ++
        (if exponent.length == 1 then ['0'] else []) ++ exponent
  String.ofList chars

/-- The number in writing. -/
def text (x : Binary64) : String :=
  match x.view with
  | .nan => "nan"
  | .infinite negative => if negative then "-inf" else "inf"
  | .finite negative m q =>
    let magnitude :=
      if m == 0 then "0.0"
      else
        let (d, k) := digits m q
        let (d, k) := dropTrailingZeros d k 20
        decimalText d k
    if negative then "-" ++ magnitude else magnitude

end CodeAtlas.Binary64
