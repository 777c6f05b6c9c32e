import CodeAtlas.Text.CodePoint
import CodeAtlas.Text.Utf8

/-!
# Encodings of a document

A document tells its encoding by its first bytes: the first two characters are ASCII, so the places
of its zero bytes show how wide a unit is and which end of it comes first. A mark at the start of a
UTF-8 document is dropped. Surrogates without a partner are read as they stand.
-/

namespace CodeAtlas

inductive Encoding
  | utf8
  | utf16 (bigEndian : Bool)
  | utf32 (bigEndian : Bool)
deriving DecidableEq, Repr

namespace Encoding

/-- The encoding that the first bytes of a document show. -/
def detect (bytes : List UInt8) : Encoding :=
  match bytes with
  | a :: b :: c :: d :: _ =>
    if a == 0 then if b == 0 then .utf32 true else .utf16 true
    else if b == 0 then if c == 0 && d == 0 then .utf32 false else .utf16 false
    else .utf8
  | [a, b] => if a == 0 then .utf16 true else if b == 0 then .utf16 false else .utf8
  | _ => .utf8

/-- The number that bytes write, the first byte being the highest. -/
def number (bytes : List UInt8) : Nat := bytes.foldl (fun n b => n * 256 + b.toNat) 0

/-- The number that a unit writes. -/
def unit (bigEndian : Bool) (bytes : List UInt8) : Nat :=
  number (if bigEndian then bytes else bytes.reverse)

/-- The units of two bytes, `none` if a byte is left. -/
def units16? (bigEndian : Bool) : List UInt8 → Option (List Nat)
  | [] => some []
  | [_] => none
  | a :: b :: rest => (units16? bigEndian rest).map (unit bigEndian [a, b] :: ·)

/-- The units of four bytes, `none` if bytes are left. -/
def units32? (bigEndian : Bool) : List UInt8 → Option (List Nat)
  | [] => some []
  | a :: b :: c :: d :: rest => (units32? bigEndian rest).map (unit bigEndian [a, b, c, d] :: ·)
  | _ => none

/-- Joins surrogates with their partners. -/
def joinPairs : List Nat → List CodePoint
  | [] => []
  | [n] => [.ofNat n]
  | high :: low :: rest =>
    if CodePoint.isHighSurrogate high && CodePoint.isLowSurrogate low then
      .char (CodePoint.ofPair high low) :: joinPairs rest
    else .ofNat high :: joinPairs (low :: rest)

/-- A mark at the start is dropped. -/
def dropMark : List Char → List Char
  | '\uFEFF' :: cs => cs
  | cs => cs

/-- The code points of a document, `none` if its bytes are no text. -/
def decode? (bytes : List UInt8) : Encoding → Option (List CodePoint)
  | .utf8 =>
    match Utf8.decode bytes with
    | .ok s => some ((dropMark s.toList).map .char)
    | .error _ => none
  | .utf16 bigEndian => (units16? bigEndian bytes).map joinPairs
  | .utf32 bigEndian => do
    let units ← units32? bigEndian bytes
    if units.all (· < 0x110000) then some (units.map .ofNat) else none

end Encoding

end CodeAtlas
