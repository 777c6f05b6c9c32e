/-!
# UTF-8 with a place for what is not UTF-8

`pieces` reads a byte string as characters and bad parts. A bad part is the longest start of a
character that the bytes at that place allow: one byte that can start no character, or the valid
beginning of one that is cut short. Two readers are built on it:

* `decode`, which refuses the text at its first bad part and says where and why;
* `decodeLossy`, which puts one replacement character for each bad part.

`encode` is the inverse on characters.
-/

namespace CodeAtlas.Utf8

/-- Why a part is bad. -/
inductive Reason
  | startByte
  | continuationByte
  | endOfData
deriving DecidableEq, Repr

def Reason.text : Reason → String
  | .startByte => "invalid start byte"
  | .continuationByte => "invalid continuation byte"
  | .endOfData => "unexpected end of data"

/-- One character, or one bad part of `length` bytes that begins with `first`. -/
inductive Piece
  | char (c : Char)
  | bad (first : UInt8) (length : Nat) (reason : Reason)
deriving DecidableEq, Repr

/-! ## Reading one piece -/

def isContinuation (b : UInt8) : Bool := 0x80 ≤ b && b ≤ 0xbf

/-- Whether `b` may follow the lead byte `lead`: the second byte also excludes overlong forms,
surrogates and points beyond the last one. -/
def isSecond (lead b : UInt8) : Bool :=
  isContinuation b && !(lead == 0xe0 && b < 0xa0) && !(lead == 0xed && b > 0x9f) &&
    !(lead == 0xf0 && b < 0x90) && !(lead == 0xf4 && b > 0x8f)

/-- The number of bytes that follow the lead byte, `none` if it starts no character. -/
def following (lead : UInt8) : Option Nat :=
  if lead < 0x80 then some 0
  else if lead < 0xc2 then none
  else if lead < 0xe0 then some 1
  else if lead < 0xf0 then some 2
  else if lead < 0xf5 then some 3
  else none

/-- The bits of the code point that the lead byte carries. -/
def leadBits (lead : UInt8) : Nat :=
  if lead < 0x80 then lead.toNat
  else if lead < 0xe0 then lead.toNat % 0x20
  else if lead < 0xf0 then lead.toNat % 0x10
  else lead.toNat % 0x08

/-- Reads the `need` bytes after the first `seen` bytes of a character; `point` holds the bits so
far. Returns the piece and the number of bytes after the lead that it takes. -/
def continued (lead : UInt8) (seen point : Nat) : Nat → List UInt8 → Piece × Nat
  | 0, _ => (.char (Char.ofNat point), seen - 1)
  | _ + 1, [] => (.bad lead seen .endOfData, seen - 1)
  | need + 1, b :: bs =>
    if (if seen == 1 then isSecond lead b else isContinuation b) then
      continued lead (seen + 1) (point * 0x40 + b.toNat % 0x40) need bs
    else (.bad lead seen .continuationByte, seen - 1)

/-- The first piece of `lead :: rest`, and how many bytes of `rest` belong to it. -/
def firstPiece (lead : UInt8) (rest : List UInt8) : Piece × Nat :=
  match following lead with
  | none => (.bad lead 1 .startByte, 0)
  | some need => continued lead 1 (leadBits lead) need rest

/-- The characters and bad parts of a byte string, in order. -/
def pieces : List UInt8 → List Piece
  | [] => []
  | b :: bs => (firstPiece b bs).1 :: pieces (bs.drop (firstPiece b bs).2)
termination_by bs => bs.length
decreasing_by
  simp only [List.length_drop, List.length_cons]
  omega

/-! ## Whole texts -/

/-- Where a byte string stops being text: the bad part takes the bytes `start` to `stop - 1`. -/
structure DecodeError where
  first : UInt8
  start : Nat
  stop : Nat
  reason : Reason
deriving DecidableEq, Repr

def hexDigit (n : Nat) : Char := Nat.digitChar (n % 16)

def DecodeError.message (e : DecodeError) : String :=
  if e.stop == e.start + 1 then
    let byte := String.ofList [hexDigit (e.first.toNat / 16), hexDigit e.first.toNat]
    s!"'utf-8' codec can't decode byte 0x{byte} in position {e.start}: {e.reason.text}"
  else
    s!"'utf-8' codec can't decode bytes in position {e.start}-{e.stop - 1}: {e.reason.text}"

/-- The bytes of a text. -/
def encode (s : String) : List UInt8 := s.toList.flatMap String.utf8EncodeChar

/-- The characters of pieces without a bad part; `offset` is the offset of the first piece. -/
def strict (offset : Nat) : List Piece → Except DecodeError (List Char)
  | [] => .ok []
  | .char c :: ps => (strict (offset + c.utf8Size) ps).map (c :: ·)
  | .bad first length reason :: _ => .error ⟨first, offset, offset + length, reason⟩

/-- Reads a byte string as text, refusing it at the first bad part. -/
def decode (bytes : List UInt8) : Except DecodeError String :=
  (strict 0 (pieces bytes)).map String.ofList

/-- What a piece becomes when bad parts are replaced. -/
def Piece.orReplacement : Piece → Char
  | .char c => c
  | .bad .. => '\uFFFD'

/-- Reads a byte string as text with one replacement character for each bad part. -/
def decodeLossy (bytes : List UInt8) : String :=
  String.ofList ((pieces bytes).map Piece.orReplacement)

@[simp] theorem encode_empty : encode "" = [] := rfl

end CodeAtlas.Utf8
