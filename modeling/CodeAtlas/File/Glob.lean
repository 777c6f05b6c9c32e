import CodeAtlas.Text.Basic

/-!
# Globs

A glob matches a whole path (`matchTokens` says when): `*` any characters, the separator included,
`?` any one character, `[…]` one character of a set, `[!…]` one outside it. A character is any code
point here. A bracket that is never closed stands for itself. In a set, a hyphen between two
characters makes a range; a range from a later to an earlier character drops out together with its
ends.

`tailMatches` looks at all tails of a path together, in time bounded by the product of the lengths;
`tailMatches_eq` says that it finds what `matchTokens` says.
-/

namespace CodeAtlas

namespace Glob

/-- A member of a bracket set. -/
inductive Item
  | single (c : CodePoint)
  | range (first last : CodePoint)
deriving DecidableEq, Repr

def Item.accepts (c : CodePoint) : Item → Bool
  | .single d => c == d
  | .range first last => first ≤ c && c ≤ last

inductive Token
  | star
  | one
  | char (c : CodePoint)
  | set (negated : Bool) (items : List Item)
deriving DecidableEq, Repr

/-! ## Bracket sets -/

/-- Splits the inside of a bracket at its range hyphens. `chunk` is the piece being read, last
character first; a hyphen counts once `wait` characters have passed, the character after a range
hyphen being taken as it is. -/
def chunks (wait : Nat) (chunk : List CodePoint) : List CodePoint → List (List CodePoint)
  | [] => [chunk.reverse]
  | c :: cs =>
    if wait == 0 && c == .char '-' then chunk.reverse :: chunks 2 [] cs
    else chunks (wait - 1) (c :: chunk) cs

/-- A hyphen at the very end is a plain character. -/
def closeLast : List (List CodePoint) → List (List CodePoint)
  | [] => []
  | [chunk] => [chunk]
  | [chunk, []] => [chunk ++ [.char '-']]
  | chunk :: rest => chunk :: closeLast rest

/-- Removes the ranges that hold nothing, from the last to the first. -/
def dropEmptyRanges : List (List CodePoint) → List (List CodePoint)
  | [] => []
  | chunk :: rest =>
    match dropEmptyRanges rest with
    | [] => [chunk]
    | next :: more =>
      match chunk.getLast?, next with
      | some last, first :: tail =>
        if first < last then (chunk.dropLast ++ tail) :: more else chunk :: next :: more
      | _, _ => chunk :: next :: more

/-- A character inside a bracket, or the hyphen of a range. -/
inductive Mark
  | char (c : CodePoint)
  | hyphen
deriving DecidableEq, Repr

def marks (cs : List (List CodePoint)) : List Mark :=
  [Mark.hyphen].intercalate (cs.map (·.map Mark.char))

/-- The members that the marks of a bracket write. -/
def items : List Mark → List Item
  | .char a :: .hyphen :: .char b :: ms => .range a b :: items ms
  | .char a :: ms => .single a :: items ms
  | .hyphen :: ms => .single (.char '-') :: items ms
  | [] => []

/-- The set that the inside of a bracket writes. -/
def bracket (inside : List CodePoint) : Token :=
  let wait := if inside.head? == some (.char '!') then 2 else 1
  match marks (dropEmptyRanges (closeLast (chunks wait [] inside))) with
  | .char (.char '!') :: ms => .set true (items ms)
  | ms => .set false (items ms)

/-- How many characters belong to a set in any case: the negation, and a closing bracket right at
the start or after it. -/
def bracketLead : List CodePoint → Nat
  | .char '!' :: .char ']' :: _ => 2
  | .char '!' :: _ => 1
  | .char ']' :: _ => 1
  | _ => 0

/-- The inside of a bracket and what follows it, if the bracket is closed. -/
def splitBracket (cs : List CodePoint) : Option (List CodePoint × List CodePoint) :=
  let tail := cs.drop (bracketLead cs)
  match tail.dropWhile (· != .char ']') with
  | [] => none
  | _ :: rest => some (cs.take (bracketLead cs) ++ tail.takeWhile (· != .char ']'), rest)

theorem length_of_splitBracket {cs inside rest : List CodePoint}
    (h : splitBracket cs = some (inside, rest)) : rest.length < cs.length := by
  have hd := (List.dropWhile_sublist (· != .char ']') (l := cs.drop (bracketLead cs))).length_le
  simp only [splitBracket] at h
  split at h
  · simp at h
  · rename_i _ r hr
    simp only [Option.some.injEq, Prod.mk.injEq] at h
    rw [hr, h.2] at hd
    simp only [List.length_cons, List.length_drop] at hd
    omega

/-- The tokens of a glob. -/
def tokens : List CodePoint → List Token
  | [] => []
  | c :: cs =>
    if c == .char '*' then .star :: tokens cs
    else if c == .char '?' then .one :: tokens cs
    else if c == .char '[' then
      match _h : splitBracket cs with
      | some (inside, rest) => bracket inside :: tokens rest
      | none => .char (.char '[') :: tokens cs
    else .char c :: tokens cs
termination_by cs => cs.length
decreasing_by
  · simp
  · simp
  · have := length_of_splitBracket _h
    simp
    omega
  · simp
  · simp

/-! ## Matching -/

/-- Whether a token takes the character. -/
def Token.accepts (c : CodePoint) : Token → Bool
  | .star | .one => true
  | .char d => c == d
  | .set negated items => items.any (Item.accepts c) != negated

/-- Whether some tail of the characters passes. -/
def anyTail (p : List CodePoint → Bool) : List CodePoint → Bool
  | [] => p []
  | c :: cs => p (c :: cs) || anyTail p cs

/-- Whether the tokens match all of the characters. -/
def matchTokens : List Token → List CodePoint → Bool
  | [], cs => cs.isEmpty
  | .star :: ts, cs => anyTail (matchTokens ts) cs
  | t :: ts, cs =>
    match cs with
    | [] => false
    | c :: cs => t.accepts c && matchTokens ts cs

/-! ## All tails together -/

/-- The first mark. -/
def firstMark : List Bool → Bool
  | [] => false
  | b :: _ => b

/-- For each place, whether it or a later one is marked. -/
def orLater : List Bool → List Bool
  | [] => []
  | b :: bs =>
    let later := orLater bs
    (b || firstMark later) :: later

/-- For each tail of the characters, whether its first one is accepted and the next tail marked. -/
def andNext (t : Token) : List CodePoint → List Bool → List Bool
  | [], _ => [false]
  | c :: cs, bs => (t.accepts c && firstMark bs.tail) :: andNext t cs bs.tail

/-- For each tail of the characters, the longest first, whether the tokens match it. -/
def tailMatches (cs : List CodePoint) : List Token → List Bool
  | [] => cs.map (fun _ => false) ++ [true]
  | .star :: ts => orLater (tailMatches cs ts)
  | t :: ts => andNext t cs (tailMatches cs ts)

/-- What holds of each tail, the longest first. -/
def overTails (p : List CodePoint → Bool) : List CodePoint → List Bool
  | [] => [p []]
  | c :: cs => p (c :: cs) :: overTails p cs

theorem firstMark_overTails (p : List CodePoint → Bool) (cs : List CodePoint) :
    firstMark (overTails p cs) = p cs := by
  cases cs <;> rfl

theorem orLater_overTails (p : List CodePoint → Bool) (cs : List CodePoint) :
    orLater (overTails p cs) = overTails (anyTail p) cs := by
  induction cs with
  | nil => simp [overTails, orLater, anyTail, firstMark]
  | cons c cs ih => simp [overTails, orLater, anyTail, ih, firstMark_overTails]

theorem andNext_overTails (t : Token) (p q : List CodePoint → Bool) (h0 : q [] = false)
    (h : ∀ c cs, q (c :: cs) = (t.accepts c && p cs)) (cs : List CodePoint) :
    andNext t cs (overTails p cs) = overTails q cs := by
  induction cs with
  | nil => simp [overTails, andNext, h0]
  | cons c cs ih => simp [overTails, andNext, h, ih, firstMark_overTails]

theorem overTails_isEmpty (cs : List CodePoint) :
    overTails List.isEmpty cs = cs.map (fun _ => false) ++ [true] := by
  induction cs with
  | nil => rfl
  | cons c cs ih => simp [overTails, ih]

/-- Looking at all tails together finds for each what `matchTokens` says. -/
theorem tailMatches_eq (cs : List CodePoint) (ts : List Token) :
    tailMatches cs ts = overTails (matchTokens ts) cs := by
  induction ts with
  | nil =>
    have : matchTokens [] = List.isEmpty := by
      funext cs
      rfl
    rw [this, overTails_isEmpty]
    rfl
  | cons t ts ih =>
    cases t with
    | star => rw [tailMatches, ih, orLater_overTails]; rfl
    | one =>
      rw [tailMatches, ih, andNext_overTails _ _ (matchTokens (.one :: ts)) rfl fun _ _ => rfl]
      simp
    | char c =>
      rw [tailMatches, ih, andNext_overTails _ _ (matchTokens ((.char c) :: ts)) rfl fun _ _ => rfl]
      simp
    | set n items =>
      rw [tailMatches, ih,
        andNext_overTails _ _ (matchTokens ((.set n items) :: ts)) rfl fun _ _ => rfl]
      simp

end Glob

/-- Whether the glob matches the whole path. -/
def Glob.matches (glob path : Text) : Bool :=
  Glob.firstMark (Glob.tailMatches path.toList (Glob.tokens glob.toList))

theorem Glob.matches_eq (glob path : Text) :
    Glob.matches glob path = Glob.matchTokens (Glob.tokens glob.toList) path.toList := by
  rw [Glob.matches, Glob.tailMatches_eq, Glob.firstMark_overTails]

/-- Whether one of the globs matches. -/
def Glob.matchesAny (globs : List Text) (path : Text) : Bool :=
  globs.any (Glob.matches · path)

end CodeAtlas
