import CodeAtlas.Text.Printable

/-!
# Quoted text

The form in which messages show a text: between single quotes, or double ones if that saves
escaping, with everything unprintable escaped. Printable characters of any script stay.
-/

namespace CodeAtlas.Text

/-- `digits` hexadecimal digits of `n`, in lower case. -/
def hex : Nat → Nat → List Char
  | 0, _ => []
  | digits + 1, n => hex digits (n / 16) ++ [Nat.digitChar (n % 16)]

/-- The escape of a code point that is not printable, the shortest of three widths. -/
def escapePoint (n : Nat) : List Char :=
  if n < 0x100 then '\\' :: 'x' :: hex 2 n
  else if n < 0x10000 then '\\' :: 'u' :: hex 4 n
  else '\\' :: 'U' :: hex 8 n

/-- How a code point stands between quotes `quote`. -/
def quotePoint (quote c : CodePoint) : List CodePoint :=
  if c == quote || c == '\\' then ['\\', c]
  else if c == '\n' then ['\\', 'n']
  else if c == '\r' then ['\\', 'r']
  else if c == '\t' then ['\\', 't']
  else if isPrintable c then [c]
  else (escapePoint c.toNat).map .char

/-- Double quotes are used for a text with single quotes and no double ones. -/
def quoteMark (cs : List CodePoint) : CodePoint :=
  if cs.contains ('\'' : CodePoint) && !cs.contains ('"' : CodePoint) then '"' else '\''

/-- The text between quotes. -/
def quoted (s : Text) : Text :=
  let mark := quoteMark s.toList
  ofList ([mark] ++ s.toList.flatMap (quotePoint mark) ++ [mark])

end CodeAtlas.Text
