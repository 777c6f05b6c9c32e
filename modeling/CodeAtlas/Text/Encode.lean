import CodeAtlas.Text.Quoted
import CodeAtlas.Text.Utf8

/-!
# Encoding texts

Only a string can be written in UTF-8: a text with surrogates cannot, and `encodeError?` tells of the
first ones. `bytes` gives every text a form in bytes, a surrogate taking three; it is the UTF-8 of
those that have one (`bytes_ofString`).

On a disk, names are bytes. A byte that is no part of a character is read as a surrogate, and such a
surrogate is written as its byte; `diskError?` tells of the first ones that stand for no byte.
-/

namespace CodeAtlas

/-- The first surrogates of a text: they stand at `start` to `stop - 1`. -/
structure EncodeError where
  first : Fin 0x800
  start : Nat
  stop : Nat
deriving DecidableEq, Repr

def EncodeError.message (e : EncodeError) : String :=
  if e.stop == e.start + 1 then
    let shown := String.ofList (Text.escapePoint (CodePoint.surrogate e.first).toNat)
    s!"'utf-8' codec can't encode character '{shown}' in position {e.start}: surrogates not allowed"
  else
    s!"'utf-8' codec can't encode characters in position {e.start}-{e.stop - 1}: " ++
      "surrogates not allowed"

namespace CodePoint

/-- Why code points, the first of which is at `offset`, cannot be encoded. -/
def encodeError? (offset : Nat) : List CodePoint → Option EncodeError
  | [] => none
  | .char _ :: cs => encodeError? (offset + 1) cs
  | .surrogate n :: cs =>
    some ⟨n, offset, offset + 1 + (cs.takeWhile isSurrogate).length⟩

def bytes : CodePoint → List UInt8
  | .char c => String.utf8EncodeChar c
  | .surrogate n => [0xed, UInt8.ofNat (0xa0 + n / 0x40), UInt8.ofNat (0x80 + n % 0x40)]

/-- Whether a surrogate stands for a byte of a name on a disk, which is at least `0x80`. -/
def isByte (n : Fin 0x800) : Bool := 0x480 ≤ n.val && n.val < 0x500

/-- Why code points, the first of which is at `offset`, can be in no name on a disk. -/
def diskError? (offset : Nat) : List CodePoint → Option EncodeError
  | [] => none
  | .char _ :: cs => diskError? (offset + 1) cs
  | .surrogate n :: cs =>
    if isByte n then diskError? (offset + 1) cs
    else some ⟨n, offset, offset + 1 + (cs.takeWhile isSurrogate).length⟩

/-- How many bytes a code point takes in a name on a disk. -/
def diskSize : CodePoint → Nat
  | .char c => c.utf8Size
  | .surrogate _ => 1

theorem encodeError?_map_char (offset : Nat) (cs : List Char) :
    encodeError? offset (cs.map .char) = none := by
  induction cs generalizing offset with
  | nil => rfl
  | cons c cs ih => simp [encodeError?, ih]

theorem filterMap_map_char (cs : List Char) : (cs.map .char).filterMap char? = cs := by
  induction cs with
  | nil => rfl
  | cons c cs ih => simp [char?, ih]

theorem map_char_filterMap {offset : Nat} {cs : List CodePoint}
    (h : encodeError? offset cs = none) : (cs.filterMap char?).map .char = cs := by
  induction cs generalizing offset with
  | nil => rfl
  | cons c cs ih =>
    cases c with
    | char c => simp [char?, ih h]
    | surrogate n => cases h

end CodePoint

namespace Text

/-- Why a text cannot be encoded. -/
def encodeError? (t : Text) : Option EncodeError := CodePoint.encodeError? 0 t.toList

/-- The string that a text is, or why it is none. -/
def asString (t : Text) : Except EncodeError String :=
  match t.encodeError? with
  | some e => .error e
  | none => .ok (String.ofList (t.toList.filterMap CodePoint.char?))

/-- Why a text can be no path on a disk. -/
def diskError? (t : Text) : Option EncodeError := CodePoint.diskError? 0 t.toList

/-- How many bytes a text takes on a disk. -/
def diskSize (t : Text) : Nat := t.toList.foldl (fun n c => n + c.diskSize) 0

/-- The bytes of the code points. -/
def bytes (t : Text) : List UInt8 := t.toList.flatMap CodePoint.bytes

@[simp] theorem encodeError?_ofString (s : String) : (ofString s).encodeError? = none :=
  CodePoint.encodeError?_map_char 0 s.toList

/-- A string is one. -/
@[simp] theorem asString_ofString (s : String) : asString s = .ok s := by
  simp only [asString, encodeError?_ofString, toList_ofString, CodePoint.filterMap_map_char,
    String.ofList_toList]

theorem asString_of_encodeError? {t : Text} (h : t.encodeError? = none) :
    ∃ s : String, t.asString = .ok s ∧ t = s := by
  refine ⟨String.ofList (t.toList.filterMap CodePoint.char?), ?_, ?_⟩
  · simp only [asString, h]
  · rw [← toList_inj, toList_ofString, String.toList_ofList, CodePoint.map_char_filterMap h]

/-- Only such a text is one. -/
theorem ofString_of_asString {t : Text} {s : String} (h : t.asString = .ok s) : ofString s = t := by
  unfold asString at h
  cases he : t.encodeError? with
  | some e =>
    rw [he] at h
    cases h
  | none =>
    rw [he] at h
    cases h
    rw [← toList_inj, toList_ofString, String.toList_ofList, CodePoint.map_char_filterMap he]

theorem bytes_ofString (s : String) : bytes s = Utf8.encode s := by
  rw [bytes, toList_ofString, List.flatMap_map]
  rfl

end Text

end CodeAtlas
