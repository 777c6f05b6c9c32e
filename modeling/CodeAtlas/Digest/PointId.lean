import CodeAtlas.Digest.Sha1
import CodeAtlas.Number.Integer
import CodeAtlas.Text.Encode

/-!
# Point ids

A stored point is known by a number or by a UUID. The UUID of a key is name-based: the first
sixteen bytes of the digest of a fixed namespace and the key, with version and variant set.
Numbers come before UUIDs.
-/

namespace CodeAtlas

def hexText (bytes : List UInt8) : List Char := bytes.flatMap fun b => Text.hex 2 b.toNat

inductive PointId
  | number (n : Int)
  | uuid (text : String)
deriving DecidableEq, Repr

namespace PointId

def namespaceBytes : List UInt8 := [
  0x6f, 0x1c, 0x3a, 0x52, 0x8d, 0x0e, 0x4b, 0x8f, 0x9a, 0x47, 0x2c, 0x5e, 0x0b, 0x7d, 0x41, 0xaa]

/-- Sets version five and the variant in the sixteen bytes. -/
def mark (bytes : List UInt8) : List UInt8 :=
  bytes.zipIdx.map fun (b, i) =>
    if i == 6 then (b &&& 0x0f) ||| 0x50 else if i == 8 then (b &&& 0x3f) ||| 0x80 else b

/-- Sixteen bytes in the usual groups. -/
def groups (bytes : List UInt8) : String :=
  let hex := hexText bytes
  String.ofList (hex.take 8 ++ '-' :: (hex.drop 8).take 4 ++ '-' :: (hex.drop 12).take 4 ++
    '-' :: (hex.drop 16).take 4 ++ '-' :: hex.drop 20)

/-- The name-based UUID of a key's bytes. -/
def ofKey (key : Text) : PointId :=
  .uuid (groups (mark ((Sha1.digest (namespaceBytes ++ key.bytes)).take 16)))

/-- The id that a key gets: it has to be one that can be encoded. -/
def ofKey? (key : Text) : Except EncodeError PointId :=
  match key.encodeError? with
  | some e => .error e
  | none => .ok (ofKey key)

def text : PointId → String
  | .number n => Integer.text n
  | .uuid s => s

/-- Numbers by value, then UUIDs by their text. -/
def le : PointId → PointId → Bool
  | .number a, .number b => a ≤ b
  | .number _, .uuid _ => true
  | .uuid _, .number _ => false
  | .uuid a, .uuid b => !decide (b < a)

end PointId

end CodeAtlas
