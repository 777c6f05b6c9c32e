import CodeAtlas.Text.Encode
import CodeAtlas.Text.Occurs
import CodeAtlas.Value.Limit

/-!
# Token limits

A text is cut to a number of tokens before it is embedded. A tokenizer splits a text and joins
tokens again; it may refuse a text. Every token covers at least one byte, so a text of few bytes
is not split at all. A text from outside, which may hold surrogates, is cut by `truncatePoints`; on
a text of characters that is the same (`truncatePoints_ofText`).

`Tokenizer.blocks` splits the bytes of a text into blocks of three.
-/

namespace CodeAtlas

structure Tokenizer (τ : Type) where
  /-- The tokens of a text, or the text of a refusal. -/
  encode : String → Except String (List τ)
  decode : List τ → String

namespace Tokenizer

/-- The text cut to at most `limit` tokens; a limit that is not positive cuts nothing. -/
def truncate {τ : Type} (t : Tokenizer τ) (text : String) (limit : Int) : Except String String :=
  if limit ≤ 0 || (Utf8.encode text).length ≤ limit then .ok text
  else do
    let tokens ← t.encode text
    if tokens.length ≤ limit then return text else return t.decode (tokens.take limit.toNat)

/-- Why a text from outside cannot be cut. -/
inductive CutError
  /-- The tokenizer refused the text. -/
  | refused (message : String)
  /-- The text holds surrogates. -/
  | encode (e : EncodeError)
  | setting (e : SettingError)
deriving DecidableEq, Repr

/-- The text cut to a limit that need not be whole: one that is not is no number of tokens to
keep. -/
def truncateWithin {τ : Type} (t : Tokenizer τ) (text : String) (limit : Limit) :
    Except CutError String :=
  match limit with
  | .whole n => (t.truncate text n).mapError .refused
  | .real _ =>
    if limit.admits (Utf8.encode text).length then .ok text
    else
      match t.encode text with
      | .error message => .error (.refused message)
      | .ok tokens => if limit.admits tokens.length then .ok text else .error (.setting .wrongType)

/-- A text from outside cut to a limit; one that holds surrogates cannot be measured. -/
def truncatePoints {τ : Type} (t : Tokenizer τ) (text : Text) (limit : Limit) :
    Except CutError (Text) :=
  if limit.isAtMost 0 then .ok text
  else
    match text.asString with
    | .error e => .error (.encode e)
    | .ok s => (t.truncateWithin s limit).map Text.ofString

/-- A limit that is not positive is not looked at any further. -/
theorem truncatePoints_of_nonpos {τ : Type} (t : Tokenizer τ) (text : Text) {limit : Int}
    (h : limit ≤ 0) : t.truncatePoints text (.whole limit) = .ok text :=
  if_pos (decide_eq_true h)

/-- A positive one asks for the characters of the text. -/
theorem truncatePoints_of_pos {τ : Type} (t : Tokenizer τ) (text : Text) {limit : Int}
    (h : 0 < limit) :
    t.truncatePoints text (.whole limit) =
      match text.asString with
      | .error e => .error (.encode e)
      | .ok s => ((t.truncate s limit).mapError .refused).map Text.ofString := by
  have hpos : (Limit.whole limit).isAtMost 0 = false := decide_eq_false (Int.not_le.2 h)
  unfold truncatePoints
  rw [if_neg (by rw [hpos]; exact Bool.false_ne_true)]
  cases text.asString <;> rfl

/-- A text of characters is cut to a number of tokens as `truncate` says. -/
theorem truncatePoints_ofText {τ : Type} (t : Tokenizer τ) (text : String) (limit : Int) :
    t.truncatePoints (Text.ofString text) (.whole limit) =
      ((t.truncate text limit).mapError .refused).map Text.ofString := by
  by_cases h : limit ≤ 0
  · have cut : t.truncate text limit = .ok text := by simp [truncate, h]
    rw [cut, t.truncatePoints_of_nonpos _ h]
    rfl
  · rw [t.truncatePoints_of_pos _ (Int.not_le.1 h), Text.asString_ofString]

/-- The bytes in blocks of three, the last one possibly shorter. -/
def threes : List UInt8 → List (List UInt8)
  | a :: b :: c :: d :: rest => [a, b, c] :: threes (d :: rest)
  | [] => []
  | bytes => [bytes]

/-- The mark that no text may contain. -/
def reservedMark : String := "<|endoftext|>"

/-- Tokens of three bytes. A text with the reserved mark is refused, and bytes that are no text
are replaced when tokens are joined. -/
def blocks : Tokenizer (List UInt8) where
  encode text :=
    if Text.occurs reservedMark text then .error "disallowed special token"
    else .ok (threes (Utf8.encode text))
  decode tokens := Utf8.decodeLossy tokens.flatten

end Tokenizer

end CodeAtlas
