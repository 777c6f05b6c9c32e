import CodeAtlas.Search.Merge

/-!
# Ranking

Sorting by runs: the list is cut into runs that already rise or fall, short ones being extended by
binary insertion, and neighbouring runs are merged in an order that keeps them balanced. For an
order this is the stable sort; elements that compare with nothing stay where the comparisons leave
them.
-/

namespace CodeAtlas.Ranking

variable {α : Type}

/-- Places `a` after the elements it is not smaller than, looking at the middle first. -/
def insert (lt : α → α → Bool) (a : α) (xs : List α) : List α :=
  match _h : xs.drop (xs.length / 2) with
  | [] => [a]
  | x :: tail =>
    if lt a x then insert lt a (xs.take (xs.length / 2)) ++ x :: tail
    else xs.take (xs.length / 2) ++ x :: insert lt a tail
termination_by xs.length
decreasing_by
  · have := congrArg List.length _h
    simp only [List.length_drop, List.length_cons] at this
    simp only [List.length_take]
    omega
  · have := congrArg List.length _h
    simp only [List.length_drop, List.length_cons] at this
    omega

/-- Splits off the elements that do not fall below the one before. -/
def rising (lt : α → α → Bool) (x : α) : List α → List α × List α
  | [] => ([], [])
  | y :: ys =>
    if lt y x then ([], y :: ys)
    else
      let (run, rest) := rising lt y ys
      (y :: run, rest)

/-- Splits off the elements that each fall below the one before. -/
def falling (lt : α → α → Bool) (x : α) : List α → List α × List α
  | [] => ([], [])
  | y :: ys =>
    if lt y x then
      let (run, rest) := falling lt y ys
      (y :: run, rest)
    else ([], y :: ys)

/-- The run at the start in rising order, and the rest. -/
def firstRun (lt : α → α → Bool) : List α → List α × List α
  | [] => ([], [])
  | [x] => ([x], [])
  | x :: y :: ys =>
    if lt y x then
      let (run, rest) := falling lt x (y :: ys)
      ((x :: run).reverse, rest)
    else
      let (run, rest) := rising lt x (y :: ys)
      (x :: run, rest)

/-- The length up to which short runs are extended: the six highest bits of the length of the list,
and one more if a lower bit was set. -/
def minRun (n : Nat) (lowerBit : Bool) : Nat :=
  if n < 64 then n + lowerBit.toNat else minRun (n / 2) (lowerBit || n % 2 == 1)
termination_by n
decreasing_by omega

theorem length_falling (lt : α → α → Bool) (x : α) (ys : List α) :
    (falling lt x ys).1.length + (falling lt x ys).2.length = ys.length := by
  induction ys generalizing x with
  | nil => rfl
  | cons y ys ih =>
    unfold falling
    split
    · simp only [List.length_cons]
      have := ih y
      omega
    · simp

theorem length_rising (lt : α → α → Bool) (x : α) (ys : List α) :
    (rising lt x ys).1.length + (rising lt x ys).2.length = ys.length := by
  induction ys generalizing x with
  | nil => rfl
  | cons y ys ih =>
    unfold rising
    split
    · simp
    · simp only [List.length_cons]
      have := ih y
      omega

/-- A first run takes at least one element. -/
theorem length_firstRun (lt : α → α → Bool) (x : α) (xs : List α) :
    (firstRun lt (x :: xs)).2.length ≤ xs.length := by
  cases xs with
  | nil => simp [firstRun]
  | cons y ys =>
    simp only [firstRun]
    split
    · have := length_falling lt x (y :: ys)
      simp only
      omega
    · have := length_rising lt x (y :: ys)
      simp only
      omega

/-- The runs of a list, each but the last extended to `least` elements. -/
def runs (lt : α → α → Bool) (least : Nat) (xs : List α) : List (List α) :=
  match xs with
  | [] => []
  | x :: xs =>
    let first := firstRun lt (x :: xs)
    let missing := least - first.1.length
    (first.2.take missing).foldl (fun run a => insert lt a run) first.1 ::
      runs lt least (first.2.drop missing)
termination_by xs.length
decreasing_by
  have := length_firstRun lt x xs
  simp only [List.length_drop, List.length_cons]
  omega

/-! ## Merging all runs -/

/-- How deep the boundary of two runs lies in a balanced tree over `n` places: the number of the
first binary digit in which the middles of the runs, as parts of `n`, differ. `a` is twice the
first middle and `d` twice the distance to the second. -/
def depth (n a d : Nat) : Nat :=
  if h : d = 0 ∨ n ≤ d then 1
  else if n ≤ a then depth n (2 * (a - n)) (2 * d) + 1
  else if n ≤ a + d then 1
  else depth n (2 * a) (2 * d) + 1
termination_by n - d
decreasing_by all_goals omega

/-- A run that waits to be merged, with the depth of the boundary after it. -/
abbrev Pending (α : Type) := List α × Nat

/-- Merges the last two runs while the boundary between them lies deeper than `level`. The last
run comes first. -/
def mergeDeeper (lt : α → α → Bool) (level patience : Nat) (stack : List (Pending α)) :
    List (Pending α) × Nat :=
  match stack with
  | last :: before :: rest =>
    if level < before.2 then
      let merged := Merge.merge lt patience before.1 last.1
      mergeDeeper lt level merged.2 ((merged.1, before.2) :: rest)
    else (stack, patience)
  | _ => (stack, patience)
termination_by stack.length

/-- Adds a run of a list of `n` elements. -/
def push (lt : α → α → Bool) (n : Nat) (state : List (Pending α) × Nat) (run : List α) :
    List (Pending α) × Nat :=
  match state with
  | ([], patience) => ([(run, 0)], patience)
  | (last :: rest, patience) =>
    let start := rest.foldl (fun k r => k + r.1.length) 0
    let level := depth n (2 * start + last.1.length) (last.1.length + run.length)
    match mergeDeeper lt level patience (last :: rest) with
    | ((r, _) :: rest, patience) => ((run, 0) :: (r, level) :: rest, patience)
    | ([], patience) => ([(run, 0)], patience)

/-- Merges all runs, the shorter neighbour of the last but one first. -/
def collapse (lt : α → α → Bool) (patience : Nat) (stack : List (Pending α)) : List α :=
  match stack with
  | [] => []
  | [last] => last.1
  | [last, before] => (Merge.merge lt patience before.1 last.1).1
  | last :: before :: third :: rest =>
    if third.1.length < last.1.length then
      let merged := Merge.merge lt patience third.1 before.1
      collapse lt merged.2 (last :: (merged.1, third.2) :: rest)
    else
      let merged := Merge.merge lt patience before.1 last.1
      collapse lt merged.2 ((merged.1, before.2) :: third :: rest)
termination_by stack.length

/-- The elements from the smallest to the largest. -/
def ascending (lt : α → α → Bool) (xs : List α) : List α :=
  let found := runs lt (minRun xs.length false) xs
  let (stack, patience) := found.foldl (push lt xs.length) ([], Merge.success)
  collapse lt patience stack

/-- The elements from the largest to the smallest, equal ones in the order given. -/
def descending (lt : α → α → Bool) (xs : List α) : List α := (ascending lt xs.reverse).reverse

end CodeAtlas.Ranking
