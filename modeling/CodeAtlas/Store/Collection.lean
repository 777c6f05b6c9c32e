import CodeAtlas.Digest.PointId
import CodeAtlas.Number.Score
import CodeAtlas.Sort
import CodeAtlas.Value.Basic

/-!
# Collections of points

A collection holds points of one dimension, each under its id. Points are listed page by page in
the order of their ids, and looked up by the cosine of the angle between vectors.
-/

namespace CodeAtlas

/-- The vector of a text. -/
abbrev Embedding := List Rat

namespace Embedding

/-- The sum of the products of what stands at the same places. -/
def dot : Embedding → Embedding → Rat
  | x :: a, y :: b => x * y + dot a b
  | _, _ => 0

/-- The cosine of the angle between two vectors; nothing is similar to the zero vector. -/
def cosine (a b : Embedding) : Score :=
  let norms := dot a a * dot b b
  if norms = 0 then .finite false 0
  else
    let d := dot a b
    .finite (decide (d < 0)) (d * d / norms)

end Embedding

structure Point where
  id : PointId
  vector : Embedding
  payload : Fields

structure Collection where
  /-- The number of places of a vector; none if the vectors have names. -/
  dimension : Option Nat
  points : List Point

/-- What a stored field is compared with. -/
inductive Sought
  | text (s : Text)
  | number (i : Int)
  | flag (b : Bool)
deriving DecidableEq, Repr

namespace Sought

def value : Sought → Value
  | .text s => .text s
  | .number i => .int i
  | .flag b => .bool b

/-- What a value asks for, if it is one that can be compared with. -/
def ofValue? : Value → Option Sought
  | .text s => some (.text s)
  | .int i => some (.number i)
  | .bool b => some (.flag b)
  | _ => none

/-- Whether a stored value is the one sought, which is of the same kind. -/
def isMet (s : Sought) (v : Value) : Bool := ofValue? v == some s

/-- Whether a stored value is the one sought, or lists it. -/
def isHeld (s : Sought) : Value → Bool
  | .list items => items.any s.isMet
  | v => s.isMet v

end Sought

/-- Fields of the payload and what they must hold. -/
abbrev PayloadFilter := List (Text × Sought)

def PayloadFilter.accepts (f : PayloadFilter) (payload : Fields) : Bool :=
  f.all fun (field, s) => ((payload.get? field).map s.isHeld).getD false

namespace Collection

/-- Puts a point in the place of the one with its id, or at the end. -/
def insertPoint (points : List Point) (p : Point) : List Point :=
  match points with
  | [] => [p]
  | q :: rest => if q.id = p.id then p :: rest else q :: insertPoint rest p

/-- Inserts or replaces points, in order. -/
def upsert (c : Collection) (ps : List Point) : Collection :=
  { c with points := ps.foldl insertPoint c.points }

def delete (c : Collection) (ids : List PointId) : Collection :=
  { c with points := c.points.filter fun p => !ids.contains p.id }

/-- The points that pass the filter, in the order of their ids. -/
def listing (c : Collection) (f : PayloadFilter) : List Point :=
  sortBy (fun p q => p.id.le q.id) (c.points.filter fun p => f.accepts p.payload)

/-- One page of a listing: at most `limit` points from the id `offset` on, and the id of the next
point if there is one. -/
def page (c : Collection) (f : PayloadFilter) (limit : Nat) (offset : Option PointId) :
    List Point × Option PointId :=
  let rest := match offset with
    | none => c.listing f
    | some id => (c.listing f).filter fun p => id.le p.id
  (rest.take limit, (rest.drop limit).head?.map (·.id))

/-- The `limit` points most similar to the vector, the best first; of equals the later one. -/
def nearest (c : Collection) (v : Embedding) (limit : Nat) : List (Point × Score) :=
  let scored := c.points.map fun p => (p, Embedding.cosine p.vector v)
  (sortBy (fun a b => !Score.lt a.2 b.2) scored.reverse).take limit

end Collection

end CodeAtlas
