import CodeAtlas.Text.Blank
import CodeAtlas.Text.Digit

/-!
# Reading integers

An integer is written with decimal digits of any script, single underscores between digits, one
optional sign before them and spaces around the whole.
-/

namespace CodeAtlas.Integer

/-- The value of digits with single underscores between them, after digits of value `value`;
`afterDigit` tells whether the last character was a digit. -/
def digits? (value : Nat) (afterDigit : Bool) : List CodePoint → Option Nat
  | [] => if afterDigit then some value else none
  | c :: cs =>
    if c == '_' then if afterDigit then digits? value false cs else none
    else
      match Text.digitValue? c with
      | some d => digits? (value * 10 + d) true cs
      | none => none

/-- The integer that a text writes. -/
def read? (s : Text) : Option Int :=
  match (Text.trimSpaces s).toList with
  | .char '+' :: cs => (digits? 0 false cs).map Int.ofNat
  | .char '-' :: cs => (digits? 0 false cs).map fun n => -(n : Int)
  | cs => (digits? 0 false cs).map Int.ofNat

/-- The integer in decimal, with a minus sign if it is negative. -/
def text (i : Int) : String :=
  match i with
  | .ofNat n => String.ofList (Nat.toDigits 10 n)
  | .negSucc n => String.ofList ('-' :: Nat.toDigits 10 (n + 1))

end CodeAtlas.Integer
