import CodeAtlas.Text.Encode
import CodeAtlas.Value.Json

/-!
# Fields of a request

Requests are read leniently: a condition may be a number or a word, and an integer may be a whole
real number or written out as text. A value that cannot be read is shown in the answer, if it can
be shown (`Json.isShowable`).
-/

namespace CodeAtlas.Field

/-! ## Conditions -/

def asciiLower (s : String) : String := String.ofList (s.toList.map Char.toLower)

def conditionOfWord? (word : String) : Option Bool :=
  if ["1", "t", "true", "y", "yes", "on"].contains word then some true
  else if ["0", "f", "false", "n", "no", "off"].contains word then some false
  else none

/-- The condition that a value stands for. -/
def condition? : Value → Option Bool
  | .bool b => some b
  | .text s => s.asString.toOption.bind fun word => conditionOfWord? (asciiLower word)
  | .int i => if i = 0 then some false else if i = 1 then some true else none
  | .real x =>
    match x.toRat? with
    | some q => if q = 0 then some false else if q = 1 then some true else none
    | none => none
  | _ => none

/-! ## Integers -/

/-- Drops zeros and underscores after a first zero, up to another digit or a minus sign; `last` is
the character before. -/
def afterZero? (last : Char) : List Char → Option (List Char)
  | [] => some [last]
  | c :: cs =>
    if c == '0' || c == '_' then afterZero? c cs
    else if c.isDigit || c == '-' then some (c :: cs)
    else if c == '.' then some (last :: c :: cs)
    else none

/-- Drops leading zeros; nothing but a digit may come first. -/
def dropLeadingZeros? : List Char → Option (List Char)
  | [] => none
  | c :: cs =>
    if c == '0' then afterZero? c cs
    else if c.isDigit then some (c :: cs)
    else none

/-- Drops a point and the zeros that follow it, if there are some and nothing else. -/
def dropZeroFraction (cs : List Char) : List Char :=
  match cs.span (· != '.') with
  | (whole, _ :: d :: ds) => if (d :: ds).all (· == '0') then whole else cs
  | _ => cs

/-- Whether an underscore follows another. -/
def doubleUnderscore : List Char → Bool
  | '_' :: '_' :: _ => true
  | _ :: cs => doubleUnderscore cs
  | [] => false

/-- Drops underscores if they stand alone and within the text. -/
def dropUnderscores (cs : List Char) : List Char :=
  if cs.head? == some '_' || cs.getLast? == some '_' || doubleUnderscore cs then cs
  else cs.filter (· != '_')

/-- An integer has at most this many digits. -/
def maxDigits : Nat := 4300

/-- Digits without a leading zero. -/
def digits? (cs : List Char) : Option Nat :=
  if cs.isEmpty || !cs.all Char.isDigit || (cs.head? == some '0' && cs.length > 1) then none
  else if maxDigits < cs.length then none
  else some (cs.foldl (fun n c => n * 10 + (c.toNat - 48)) 0)

/-- Digits after at most one minus sign. -/
def signedDigits? : List Char → Option Int
  | '-' :: cs => (digits? cs).map fun n => -(n : Int)
  | cs => (digits? cs).map Int.ofNat

/-- Splits off a sign, of which there is at most one. -/
def spanSign : List Char → List Char × List Char
  | '-' :: cs => (['-'], cs)
  | '+' :: cs => ([], cs)
  | cs => ([], cs)

/-- The integer that a text writes: spaces around it, a plus sign, leading zeros, a fraction of
zeros and single underscores do not count. Leading zeros may stand before a minus sign. -/
def integerOfText? (s : Text) : Option Int := do
  let (sign, cs) := spanSign (← (Text.trimSpaces s).asString.toOption).toList
  signedDigits? (dropUnderscores (dropZeroFraction (sign ++ (← dropLeadingZeros? cs))))

/-- The integer that a value stands for; a real number has to be whole and below 2^63. -/
def integer? : Value → Option Int
  | .bool b => some (if b then 1 else 0)
  | .int i => some i
  | .real x =>
    match x.toRat? with
    | some q => if q.den = 1 && q.num.natAbs < Nat.pow 2 63 then some q.num else none
    | none => none
  | .text s => integerOfText? s
  | _ => none

/-- An integer, or nothing where the value is null. -/
def optionalInteger? : Value → Option (Option Int)
  | .null => some none
  | v => (integer? v).map some

/-! ## Texts -/

def text? : Value → Option Text
  | .text s => some s
  | _ => none

/-! ## Objects -/

/-- Reads a field that may be missing, or gives back the value that cannot be read. -/
def optional {α : Type} (fields : Fields) (key : Text) (read? : Value → Option α) :
    Except Value (Option α) :=
  match fields.get? key with
  | none => .ok none
  | some v =>
    match read? v with
    | some a => .ok (some a)
    | none => .error v

/-- Reads a field that must be there, or gives back what is wrong: the value that cannot be read, or
the whole object if the field is missing. -/
def required {α : Type} (fields : Fields) (key : Text) (read? : Value → Option α) :
    Except Value α :=
  match fields.get? key with
  | none => .error (.dict fields)
  | some v =>
    match read? v with
    | some a => .ok a
    | none => .error v

end CodeAtlas.Field

/-! ## Showing what was refused -/

namespace CodeAtlas.Value

/-- A field whose name starts like this is left out when a value is shown. -/
def hiddenStart : Text := "_sa"

mutual

/-- Whether an answer can show the value: its numbers are finite and its texts can be encoded. -/
def isShowable : Value → Bool
  | .null | .bool _ | .int _ => true
  | .real x => x.toRat?.isSome
  | .text s => s.encodeError?.isNone
  | .list items => areShowable items
  | .dict fields => fieldsShowable fields

def areShowable : List Value → Bool
  | [] => true
  | v :: vs => v.isShowable && areShowable vs

def fieldsShowable : Fields → Bool
  | [] => true
  | (k, v) :: fs =>
    (hiddenStart.toList.isPrefixOf k.toList || (k.encodeError?.isNone && v.isShowable)) &&
      fieldsShowable fs

end

end CodeAtlas.Value
