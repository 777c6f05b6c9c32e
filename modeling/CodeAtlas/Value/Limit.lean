import CodeAtlas.Value.Basic

/-!
# Limits

A limit is a number that counts are compared with. A real number compares like any other, but only
a whole one can tell how many to take.
-/

namespace CodeAtlas

inductive Limit
  | whole (i : Int)
  | real (x : Binary64)
deriving DecidableEq, Repr

namespace Limit

/-- The limit that a value is. -/
def ofValue : Value → Except SettingError Limit
  | .bool b => .ok (.whole (if b then 1 else 0))
  | .int i => .ok (.whole i)
  | .real x => .ok (.real x)
  | _ => .error .wrongType

/-- Whether a number is at most the limit; none is at most what is not a number. -/
def admits (n : Int) : Limit → Bool
  | .whole i => n ≤ i
  | .real x =>
    match x.toRat? with
    | some q => (n : Rat) ≤ q
    | none => x = Binary64.infinity false

/-- Whether the limit is at most a number. -/
def isAtMost (n : Int) : Limit → Bool
  | .whole i => i ≤ n
  | .real x =>
    match x.toRat? with
    | some q => q ≤ (n : Rat)
    | none => x = Binary64.infinity true

/-- Whether the limit is less than a number. -/
def isBelow (n : Int) : Limit → Bool
  | .whole i => i < n
  | .real x =>
    match x.toRat? with
    | some q => q < (n : Rat)
    | none => x = Binary64.infinity true

/-- More than anything counts. -/
def unbounded : Int := Nat.pow 2 64

/-- The least count that is not below the limit; none ends at what is not a number. -/
def reach : Limit → Int
  | .whole i => i
  | .real x =>
    match x.toRat? with
    | some q => q.ceil
    | none => if x = Binary64.infinity true then 0 else unbounded

/-- How many the limit takes. -/
def count : Limit → Except SettingError Int
  | .whole i => .ok i
  | .real _ => .error .wrongType

end Limit

end CodeAtlas
