/-!
# Code points

A code point is a character, or a surrogate without a partner, which is none. Texts from outside may
hold such surrogates: names on a disk that are no UTF-8, and escapes in documents.
-/

namespace CodeAtlas

inductive CodePoint
  | char (c : Char)
  /-- The surrogate `0xd800 + n`, which stands alone. -/
  | surrogate (n : Fin 0x800)
deriving DecidableEq, Repr

namespace CodePoint

instance : Coe Char CodePoint := ⟨.char⟩

def toNat : CodePoint → Nat
  | .char c => c.toNat
  | .surrogate n => 0xd800 + n

def ofNat (n : Nat) : CodePoint :=
  if h : 0xd800 ≤ n ∧ n < 0xe000 then .surrogate ⟨n - 0xd800, by omega⟩ else .char (Char.ofNat n)

/-- Code points are ordered by their numbers. -/
instance : LT CodePoint := ⟨fun a b => a.toNat < b.toNat⟩

instance : LE CodePoint := ⟨fun a b => a.toNat ≤ b.toNat⟩

instance (a b : CodePoint) : Decidable (a < b) := inferInstanceAs (Decidable (a.toNat < b.toNat))

instance (a b : CodePoint) : Decidable (a ≤ b) := inferInstanceAs (Decidable (a.toNat ≤ b.toNat))

def isSurrogate : CodePoint → Bool
  | .char _ => false
  | .surrogate _ => true

def char? : CodePoint → Option Char
  | .char c => some c
  | .surrogate _ => none

/-! ## Pairs of surrogates -/

def isHighSurrogate (n : Nat) : Bool := 0xd800 ≤ n && n < 0xdc00

def isLowSurrogate (n : Nat) : Bool := 0xdc00 ≤ n && n < 0xe000

/-- The character that two surrogates stand for. -/
def ofPair (high low : Nat) : Char :=
  Char.ofNat (0x10000 + (high - 0xd800) * 0x400 + (low - 0xdc00))

/-! ## Numbers -/

/-- No character has the number of a surrogate. -/
theorem toNat_char_ne_surrogate (c : Char) (n : Fin 0x800) :
    (char c).toNat ≠ (surrogate n).toNat := by
  have hc : c.toNat < 0xd800 ∨ 0xdfff < c.toNat := by
    rcases c.valid with h | h
    · exact Or.inl h
    · exact Or.inr h.1
  have hn := n.isLt
  simp only [toNat]
  omega

theorem toNat_inj {a b : CodePoint} (h : a.toNat = b.toNat) : a = b := by
  cases a with
  | char c =>
    cases b with
    | char d => exact congrArg char (Char.toNat_inj.1 h)
    | surrogate n => exact absurd h (toNat_char_ne_surrogate c n)
  | surrogate m =>
    cases b with
    | char d => exact absurd h.symm (toNat_char_ne_surrogate d m)
    | surrogate n =>
      simp only [toNat] at h
      exact congrArg surrogate (Fin.ext (by omega))

/-! ## Order -/

instance : Std.IsLinearOrder CodePoint :=
  .of_le ⟨fun _ _ hab hba => toNat_inj (Nat.le_antisymm hab hba)⟩ ⟨Nat.le_trans⟩
    ⟨fun _ _ => Nat.le_total _ _⟩

instance : Std.LawfulOrderLT CodePoint := ⟨fun _ _ => Nat.lt_iff_le_and_not_ge⟩

end CodePoint

end CodeAtlas
