import CodeAtlas.Number.Shortest
import CodeAtlas.Text.Quoted
import CodeAtlas.Value.Basic

/-!
# JSON

`Json.read?` reads a JSON document as a value. Integers keep all their digits, a number with a
fraction or an exponent becomes the nearest floating-point number, and of a repeated key the last
value counts. The words for infinity and not-a-number are taken too, and so are surrogates without
a partner.

`Json.write` writes a value without blanks.
-/

namespace CodeAtlas

namespace Json

/-- What was read, and what follows it. -/
abbrev Reading (α : Type) := Option (α × List CodePoint)

def isBlank : CodePoint → Bool
  | .char c => c == ' ' || c == '\t' || c == '\n' || c == '\r'
  | .surrogate _ => false

def skipBlanks (cs : List CodePoint) : List CodePoint := cs.dropWhile isBlank

/-! ## Texts -/

def hexValue? : CodePoint → Option Nat
  | .char c => Text.hexValue? c
  | .surrogate _ => none

def hexQuad? (a b c d : CodePoint) : Option Nat := do
  return (← hexValue? a) * 4096 + (← hexValue? b) * 256 + (← hexValue? c) * 16 + (← hexValue? d)

def simpleEscape? : Char → Option Char
  | '"' => some '"'
  | '\\' => some '\\'
  | '/' => some '/'
  | 'b' => some '\x08'
  | 'f' => some '\x0c'
  | 'n' => some '\n'
  | 'r' => some '\r'
  | 't' => some '\t'
  | _ => none

/-- Adds a high surrogate that found no partner. -/
def settle (high : Option Nat) (acc : List CodePoint) : List CodePoint :=
  match high with
  | some n => .ofNat n :: acc
  | none => acc

/-- Adds an escaped code point after the escape of the surrogate `high`: a low one completes a
pair, and a high one waits for its partner. -/
def addEscaped (high : Option Nat) (acc : List CodePoint) (n : Nat) :
    Option Nat × List CodePoint :=
  match high with
  | some h =>
    if CodePoint.isLowSurrogate n then (none, .char (CodePoint.ofPair h n) :: acc)
    else if CodePoint.isHighSurrogate n then (some n, .ofNat h :: acc)
    else (none, .ofNat n :: .ofNat h :: acc)
  | none => if CodePoint.isHighSurrogate n then (some n, acc) else (none, .ofNat n :: acc)

/-- Reads up to the closing quote; `acc` holds the code points so far, last first, and `high` is
the surrogate whose escape came last. -/
def readText (high : Option Nat) (acc : List CodePoint) : List CodePoint → Reading Text
  | .char '"' :: cs => some (.ofList (settle high acc).reverse, cs)
  | .char '\\' :: .char 'u' :: a :: b :: c :: d :: cs =>
    match hexQuad? a b c d with
    | some n => readText (addEscaped high acc n).1 (addEscaped high acc n).2 cs
    | none => none
  | .char '\\' :: .char e :: cs =>
    match simpleEscape? e with
    | some c => readText none (.char c :: settle high acc) cs
    | none => none
  | .char c :: cs =>
    if c.toNat < 0x20 || c == '\\' then none
    else readText none (.char c :: settle high acc) cs
  | .surrogate n :: cs => readText none (.surrogate n :: settle high acc) cs
  | [] => none

/-! ## Numbers -/

/-- Splits off the digits at the front. -/
def spanDigits : List CodePoint → List Char × List CodePoint
  | .char c :: cs =>
    if c.isDigit then
      let (ds, rest) := spanDigits cs
      (c :: ds, rest)
    else ([], .char c :: cs)
  | cs => ([], cs)

def digitsValue (ds : List Char) : Nat := ds.foldl (fun n c => n * 10 + (c.toNat - 48)) 0

/-- Splits off a sign. -/
def spanSign : List CodePoint → Bool × List CodePoint
  | .char '-' :: cs => (true, cs)
  | .char '+' :: cs => (false, cs)
  | cs => (false, cs)

/-- The exponent that follows, if one does. -/
def exponent? : List CodePoint → Option (Int × List CodePoint)
  | .char e :: cs =>
    if e == 'e' || e == 'E' then
      let (negative, cs) := spanSign cs
      match spanDigits cs with
      | ([], _) => none
      | (ds, rest) => some ((if negative then -(digitsValue ds : Int) else digitsValue ds), rest)
    else none
  | _ => none

/-- The digits after a point; without any, the point does not belong to the number. -/
def spanFraction : List CodePoint → List Char × List CodePoint
  | .char '.' :: cs =>
    match spanDigits cs with
    | ([], _) => ([], .char '.' :: cs)
    | (ds, rest) => (ds, rest)
  | cs => ([], cs)

def integer (negative : Bool) (ds : List Char) : Value :=
  let n := digitsValue ds
  .int (if negative then -(n : Int) else n)

/-- A number without its sign. A leading zero ends the number, up to a point or an exponent. -/
def readNumber (negative : Bool) (cs : List CodePoint) : Reading Value :=
  match spanDigits cs with
  | ([], _) => none
  | ('0' :: d :: ds, rest) => some (.int 0, (d :: ds).map .char ++ rest)
  | (whole, rest) =>
    let (fraction, rest) := spanFraction rest
    let real (e : Int) : Value :=
      .real (Binary64.ofDecimal negative (digitsValue (whole ++ fraction)) (e - fraction.length))
    match exponent? rest with
    | some (e, rest) => some (real e, rest)
    | none => some (if fraction.isEmpty then integer negative whole else real 0, rest)

/-! ## Documents -/

/-- Reads `word` off the front. -/
def readWord (word : String) (v : Value) (cs : List CodePoint) : Reading Value :=
  if (Text.ofString word).toList.isPrefixOf cs then some (v, cs.drop word.length) else none

mutual

/-- Reads one value; `fuel` is no less than twice the number of code points. -/
def readValue : Nat → List CodePoint → Reading Value
  | 0, _ => none
  | fuel + 1, cs =>
    match cs with
    | .char '"' :: rest => (readText none [] rest).map fun (s, r) => (.text s, r)
    | .char '[' :: rest =>
      match skipBlanks rest with
      | .char ']' :: r => some (.list [], r)
      | r => readItems fuel [] r
    | .char '\x7b' :: rest =>
      match skipBlanks rest with
      | .char '\x7d' :: r => some (.dict [], r)
      | r => readFields fuel [] r
    | .char 'n' :: _ => readWord "null" .null cs
    | .char 't' :: _ => readWord "true" (.bool true) cs
    | .char 'f' :: _ => readWord "false" (.bool false) cs
    | .char 'N' :: _ => readWord "NaN" (.real Binary64.nan) cs
    | .char 'I' :: _ => readWord "Infinity" (.real (Binary64.infinity false)) cs
    | .char '-' :: .char 'I' :: rest =>
      readWord "Infinity" (.real (Binary64.infinity true)) (.char 'I' :: rest)
    | .char '-' :: rest => readNumber true rest
    | _ => readNumber false cs

/-- Reads items up to the closing bracket; `acc` holds the items so far, last first. -/
def readItems : Nat → List Value → List CodePoint → Reading Value
  | 0, _, _ => none
  | fuel + 1, acc, cs =>
    match readValue fuel cs with
    | none => none
    | some (v, rest) =>
      match skipBlanks rest with
      | .char ',' :: r => readItems fuel (v :: acc) (skipBlanks r)
      | .char ']' :: r => some (.list (v :: acc).reverse, r)
      | _ => none

/-- Reads fields up to the closing brace. -/
def readFields : Nat → Fields → List CodePoint → Reading Value
  | 0, _, _ => none
  | fuel + 1, acc, cs =>
    match cs with
    | .char '"' :: rest =>
      match readText none [] rest with
      | none => none
      | some (key, rest) =>
        match skipBlanks rest with
        | .char ':' :: rest =>
          match readValue fuel (skipBlanks rest) with
          | none => none
          | some (v, rest) =>
            match skipBlanks rest with
            | .char ',' :: r => readFields fuel (acc.set key v) (skipBlanks r)
            | .char '\x7d' :: r => some (.dict (acc.set key v), r)
            | _ => none
        | _ => none
    | _ => none

end

/-- The document that a text writes. -/
def read? (cs : List CodePoint) : Option Value :=
  match readValue (2 * cs.length + 2) (skipBlanks cs) with
  | none => none
  | some (v, rest) => if (skipBlanks rest).isEmpty then some v else none

/-! ## Writing -/

mutual

/-- Whether all numbers are finite. -/
def isFinite : Value → Bool
  | .real x => x.toRat?.isSome
  | .list items => areFinite items
  | .dict fields => fieldsFinite fields
  | _ => true

def areFinite : List Value → Bool
  | [] => true
  | v :: vs => isFinite v && areFinite vs

def fieldsFinite : Fields → Bool
  | [] => true
  | (_, v) :: fs => isFinite v && fieldsFinite fs

end

/-- A code point within quotes. -/
def writePoint : CodePoint → List CodePoint
  | .surrogate n => [.surrogate n]
  | .char c =>
    match c with
    | '"' => ['\\', '"']
    | '\\' => ['\\', '\\']
    | '\n' => ['\\', 'n']
    | '\r' => ['\\', 'r']
    | '\t' => ['\\', 't']
    | '\x08' => ['\\', 'b']
    | '\x0c' => ['\\', 'f']
    | c => if c.toNat < 0x20 then (['\\', 'u'] ++ Text.hex 4 c.toNat).map .char else [c]

def writeText (s : Text) : Text := "\"" ++ .ofList (s.toList.flatMap writePoint) ++ "\""

mutual

/-- The document in writing. -/
def write : Value → Text
  | .null => "null"
  | .bool b => if b then "true" else "false"
  | .int i => Integer.text i
  | .real x => x.text
  | .text s => writeText s
  | .list items => "[" ++ Text.intercalate "," (writeItems items) ++ "]"
  | .dict fields => "\x7b" ++ Text.intercalate "," (writeFields fields) ++ "\x7d"

def writeItems : List Value → List Text
  | [] => []
  | v :: vs => write v :: writeItems vs

def writeFields : Fields → List Text
  | [] => []
  | (k, v) :: fs => (writeText k ++ ":" ++ write v) :: writeFields fs

end

end Json

end CodeAtlas
