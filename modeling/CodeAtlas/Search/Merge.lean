/-!
# Merging runs

Two neighbouring runs are merged element by element; when one run wins several times in a row, the
place of an element of the other is searched by steps that double and then by halving. For an
order this is the stable merge. Elements that compare with nothing end up where the comparisons
made leave them, so the comparisons and their order are part of what is defined here.

* `Merge.search` finds the place at which a predicate on places turns false;
* `Merge.merge` merges two runs.
-/

namespace CodeAtlas.Merge

variable {α : Type}

/-! ## Searching a place -/

/-- Doubles the distance `next` while `p` holds there, up to `limit`: the last distance at which it
held, and the next one. -/
def double (p : Nat → Bool) (limit last next : Nat) : Nat × Nat :=
  if next < limit && p next then double p limit next (2 * next + 1)
  else (last, min next limit)
termination_by limit - next
decreasing_by
  rename_i h
  simp only [Bool.and_eq_true, decide_eq_true_eq] at h
  omega

/-- Halves the places from `low` to `high`, going above a place at which `p` holds. -/
def halve (p : Nat → Bool) (low high : Nat) : Nat :=
  if low < high then
    if p (low + (high - low) / 2) then halve p (low + (high - low) / 2 + 1) high
    else halve p low (low + (high - low) / 2)
  else high
termination_by high - low
decreasing_by all_goals omega

/-- The first of `count` places at which `p` does not hold, searched from `hint` on: upwards if it
holds there and downwards if not. -/
def search (p : Nat → Bool) (count hint : Nat) : Nat :=
  if p hint then
    let (last, next) := double (fun k => p (hint + k)) (count - hint) 0 1
    halve p (hint + last + 1) (hint + next)
  else
    let (last, next) := double (fun k => !p (hint - k)) (hint + 1) 0 1
    halve p (hint + 1 - next) (hint - last)

/-- Whether the element at a place passes. -/
def holdsAt (xs : List α) (p : α → Bool) (i : Nat) : Bool := xs[i]?.any p

/-- How many elements of a run come before `a`, which is smaller than its equals to the right. -/
def placeAfter (lt : α → α → Bool) (a : α) (xs : List α) (hint : Nat) : Nat :=
  search (holdsAt xs (!lt a ·)) xs.length hint

/-- How many elements of a run come before `a`, which is smaller than its equals. -/
def placeBefore (lt : α → α → Bool) (a : α) (xs : List α) (hint : Nat) : Nat :=
  search (holdsAt xs (lt · a)) xs.length hint

/-! ## Two runs -/

/-- The end from which runs are merged. Runs merged from the high end are given last element
first. -/
inductive Side
  | low
  | high
deriving DecidableEq, Repr

/-- Whether the right run's next element goes out before the left run's. -/
def Side.takesRight (side : Side) (lt : α → α → Bool) (a b : α) : Bool :=
  match side with
  | .low => lt b a
  | .high => !lt b a

/-- How many elements of the left run go out before the right run's next element. -/
def Side.leftCount (side : Side) (lt : α → α → Bool) (as : List α) (b : α) : Nat :=
  match side with
  | .low => placeAfter lt b as 0
  | .high => as.length - placeAfter lt b as.reverse (as.length - 1)

/-- How many elements of the right run go out before the left run's next element. -/
def Side.rightCount (side : Side) (lt : α → α → Bool) (a : α) (bs : List α) : Nat :=
  match side with
  | .low => placeBefore lt a bs 0
  | .high => bs.length - placeBefore lt a bs.reverse (bs.length - 1)

/-- What is left once the run that was longer is used up, or the other is down to one element, which
is known to go out last. -/
def Side.rest? (side : Side) (as bs : List α) : Option (List α) :=
  match side with
  | .low => if bs.isEmpty || as.length ≤ 1 then some (bs ++ as) else none
  | .high => if as.isEmpty || bs.length ≤ 1 then some (as ++ bs) else none

/-- Finding this many elements at once counts as a success. -/
def success : Nat := 7

mutual

/-- Merges element by element until a run has won `patience` times in a row; `left` and `right` are
the wins in a row so far. The result comes with the patience for the next merge. -/
def oneByOne (side : Side) (lt : α → α → Bool) (patience left right : Nat) (as bs : List α) :
    List α × Nat :=
  match side.rest? as bs, as, bs with
  | some out, _, _ => (out, patience)
  | none, a :: as, b :: bs =>
    if side.takesRight lt a b then
      let (out, p) :=
        if patience ≤ right + 1 && (side.rest? (a :: as) bs).isNone then
          byPlaces side lt patience (a :: as) bs
        else oneByOne side lt patience 0 (right + 1) (a :: as) bs
      (b :: out, p)
    else
      let (out, p) :=
        if patience ≤ left + 1 && (side.rest? as (b :: bs)).isNone then
          byPlaces side lt patience as (b :: bs)
        else oneByOne side lt patience (left + 1) 0 as (b :: bs)
      (a :: out, p)
  | none, as, bs => (as ++ bs, patience)
termination_by as.length + bs.length

/-- Merges by searching places, as long as that finds many elements at once. Each further search
lowers the patience and giving up raises it. -/
def byPlaces (side : Side) (lt : α → α → Bool) (patience : Nat) (as bs : List α) :
    List α × Nat :=
  match bs with
  | [] => (as, patience)
  | b :: bs =>
    let left := side.leftCount lt as b
    let as' := as.drop left
    match (side.rest? as' (b :: bs)).orElse fun _ => (side.rest? as' bs).map (b :: ·) with
    | some out => (as.take left ++ out, patience)
    | none =>
      match _h : as' with
      | [] => (as.take left ++ b :: bs, patience)
      | a :: as'' =>
        let right := side.rightCount lt a bs
        let bs' := bs.drop right
        let sent := as.take left ++ b :: bs.take right
        match (side.rest? as' bs').orElse fun _ => (side.rest? as'' bs').map (a :: ·) with
        | some out => (sent ++ out, patience)
        | none =>
          let (out, p) :=
            if success ≤ left || success ≤ right then
              byPlaces side lt (max 1 (patience - 1)) as'' bs'
            else oneByOne side lt (patience + 1) 0 0 as'' bs'
          (sent ++ a :: out, p)
termination_by as.length + bs.length
decreasing_by
  all_goals
    have hl := congrArg List.length _h
    simp only [as', List.length_drop, List.length_cons] at hl ⊢
    omega

end

/-- Merges two runs; what already is in its place at either end stays there. The run that is then
shorter decides the side. -/
def merge (lt : α → α → Bool) (patience : Nat) (as bs : List α) : List α × Nat :=
  match bs with
  | [] => (as, patience)
  | b :: _ =>
    let start := placeAfter lt b as 0
    let left := as.drop start
    match left.getLast? with
    | none => (as ++ bs, patience)
    | some a =>
      let stop := placeBefore lt a bs (bs.length - 1)
      let right := bs.take stop
      let between (out : List α) : List α := as.take start ++ out ++ bs.drop stop
      if left.length ≤ right.length then
        match right with
        | [] => (as ++ bs, patience)
        | b :: right =>
          let (out, p) := oneByOne .low lt patience 0 0 left right
          (between (b :: out), p)
      else
        match left.reverse, right with
        | _, [] | [], _ => (as ++ bs, patience)
        | a :: left, right =>
          let (out, p) := oneByOne .high lt patience 0 0 left right.reverse
          (between (a :: out).reverse, p)

end CodeAtlas.Merge
