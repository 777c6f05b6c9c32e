import CodeAtlas.Embed.Tokenizer
import CodeAtlas.Proofs.Text.Cut

/-!
# The tokens of a cut text

A text that is cut to a limit is read again, by the same tokenizer, as tokens of three bytes. They
are no more than the limit admits, except where the cut falls one or two bytes into a character:
these are replaced by the three bytes of a replacement character, which make one token more.

* `truncate_of_fits` and `truncate_of_cutAt` say what text a cut leaves;
* `tokens_of_cut` counts its tokens.
-/

namespace CodeAtlas

/-! ## Occurrences -/

namespace Text

theorem occursIn_mono {part before cs : List CodePoint} (h : occursIn part before = true)
    (hle : before <+: cs) : occursIn part cs = true := by
  obtain ⟨rest, rfl⟩ := hle
  obtain ⟨x, y, rfl⟩ := (occursIn_iff part before).1 h
  exact (occursIn_iff part _).2 ⟨x, y ++ rest, List.append_assoc ..⟩

/-- A code point that a part does not have makes no occurrence of it. -/
theorem occursIn_of_append_singleton {part cs : List CodePoint} {c : CodePoint} (hc : c ∉ part)
    (h : occursIn part (cs ++ [c]) = true) : occursIn part cs = true := by
  obtain ⟨x, y, heq⟩ := (occursIn_iff part _).1 h
  rcases List.eq_nil_or_concat y with rfl | ⟨y, d, rfl⟩
  · rcases List.eq_nil_or_concat part with rfl | ⟨part, d, rfl⟩
    · exact (occursIn_iff [] cs).2 ⟨cs, [], by simp⟩
    · rw [List.concat_eq_append, List.append_nil, ← List.append_assoc] at heq
      obtain ⟨-, hd⟩ := List.append_inj' heq rfl
      cases hd
      exact absurd (by simp) hc
  · rw [List.concat_eq_append, ← List.append_assoc] at heq
    obtain ⟨hcs, -⟩ := List.append_inj' heq rfl
    exact (occursIn_iff part cs).2 ⟨x, y, hcs⟩

end Text

namespace Tokenizer

open Utf8 (CutAt remnant)

/-! ## Blocks -/

/-- What is left for the last block: some bytes, but not more than a block takes. -/
theorem length_last {bytes : List UInt8}
    (hlong : ∀ a b c d rest, bytes = a :: b :: c :: d :: rest → False) (hne : bytes = [] → False) :
    0 < bytes.length ∧ bytes.length ≤ 3 := by
  match bytes, hlong, hne with
  | [], _, hne => exact absurd rfl hne
  | [_], _, _ => simp
  | [_, _], _, _ => simp
  | [_, _, _], _, _ => simp
  | a :: b :: c :: d :: rest, hlong, _ => exact absurd rfl (hlong a b c d rest)

theorem length_threes (bytes : List UInt8) : (threes bytes).length = (bytes.length + 2) / 3 := by
  fun_induction threes bytes with
  | case1 a b c d rest ih =>
    rw [List.length_cons, ih]
    simp only [List.length_cons]
    omega
  | case2 => rfl
  | case3 bytes hlong hne =>
    have hlast := length_last hlong hne
    rw [List.length_singleton]
    omega

/-- The first blocks are the first bytes. -/
theorem flatten_take_threes (bytes : List UInt8) (k : Nat) :
    ((threes bytes).take k).flatten = bytes.take (3 * k) := by
  fun_induction threes bytes generalizing k with
  | case1 a b c d rest ih =>
    cases k with
    | zero => rfl
    | succ k =>
      rw [List.take_succ_cons, List.flatten_cons, ih]
      rfl
  | case2 => rw [List.take_nil, List.take_nil, List.flatten_nil]
  | case3 bytes hlong hne =>
    cases k with
    | zero => rfl
    | succ k =>
      have hlast := length_last hlong hne
      rw [List.take_succ_cons, List.take_nil, List.flatten_singleton,
        List.take_of_length_le (by omega)]

/-! ## What a cut leaves -/

section
variable {text : String} {limit : Nat}

theorem blocks_encode (hmark : Text.occurs reservedMark text = false) :
    blocks.encode text = .ok (threes (Utf8.encode text)) :=
  if_neg (by rw [hmark]; exact Bool.false_ne_true)

/-- A text whose bytes fit into the tokens is left as it is. -/
theorem truncate_of_fits (hmark : Text.occurs reservedMark text = false)
    (hfits : (Utf8.encode text).length ≤ 3 * limit) : blocks.truncate text limit = .ok text := by
  unfold truncate
  by_cases hkept : (limit : Int) ≤ 0 ∨ ((Utf8.encode text).length : Int) ≤ limit
  · rw [if_pos (by simpa using hkept)]
  · rw [if_neg (by simpa using hkept), blocks_encode hmark]
    have hlength : ((threes (Utf8.encode text)).length : Int) ≤ limit := by
      rw [length_threes]
      omega
    exact if_pos hlength

/-- A text that does not fit is cut after the bytes that do. -/
theorem truncate_of_cutAt (hmark : Text.occurs reservedMark text = false) (hlimit : 0 < limit)
    (hlong : 3 * limit < (Utf8.encode text).length) {before : List Char} {inside : Nat}
    (hcut : CutAt text.toList (3 * limit) before inside) :
    blocks.truncate text limit = .ok (String.ofList (before ++ remnant inside)) := by
  unfold truncate
  have hkept : ¬((limit : Int) ≤ 0 ∨ ((Utf8.encode text).length : Int) ≤ limit) := by omega
  rw [if_neg (by simpa using hkept), blocks_encode hmark]
  have hlength : ¬((threes (Utf8.encode text)).length : Int) ≤ limit := by
    rw [length_threes]
    omega
  have hdecode : blocks.decode ((threes (Utf8.encode text)).take limit) =
      String.ofList (before ++ remnant inside) := by
    rw [← hcut.decodeLossy, ← flatten_take_threes]
    rfl
  rw [← hdecode]
  exact if_neg hlength

/-- A cut makes no mark. -/
theorem not_occurs_of_cutAt (hmark : Text.occurs reservedMark text = false) {before : List Char}
    {n inside : Nat} (hcut : CutAt text.toList n before inside) :
    Text.occurs reservedMark (String.ofList (before ++ remnant inside)) = false := by
  rw [← Bool.not_eq_true] at hmark ⊢
  intro h
  apply hmark
  unfold Text.occurs at h ⊢
  rw [Text.toList_ofString text]
  rw [Text.toList_ofString (String.ofList _), String.toList_ofList, List.map_append] at h
  have hprefix : before.map CodePoint.char <+: text.toList.map .char := hcut.prefix_of.map _
  unfold remnant at h
  split at h
  · rw [List.map_nil, List.append_nil] at h
    exact Text.occursIn_mono h hprefix
  · exact Text.occursIn_mono (Text.occursIn_of_append_singleton (by decide) h) hprefix

/-- The tokens of a text that was cut. -/
theorem tokens_of_cut {before : List Char} {inside : Nat}
    (hcut : CutAt text.toList (3 * limit) before inside) :
    (threes (Utf8.encode (String.ofList (before ++ remnant inside)))).length =
      if inside = 1 ∨ inside = 2 then limit + 1 else limit := by
  have hplace := hcut.place
  have hinside := hcut.inside_lt
  have hremnant : ((remnant inside).flatMap String.utf8EncodeChar).length =
      if inside = 0 then 0 else 3 := by
    unfold remnant
    split <;> rfl
  rw [length_threes, Utf8.encode, String.toList_ofList, List.flatMap_append, List.length_append,
    hremnant]
  split_ifs <;> omega

end

/-! ## The limit -/

/-- Whether the bytes that the tokens admit end one or two bytes into a character. A replacement
character has three bytes, so it then takes more room than the bytes that it replaces. -/
def Overruns (text : String) (limit : Nat) : Prop :=
  ∃ before inside, CutAt text.toList (3 * limit) before inside ∧ (inside = 1 ∨ inside = 2)

theorem overruns_iff {text : String} {limit : Nat} {before : List Char} {inside : Nat}
    (hcut : CutAt text.toList (3 * limit) before inside) :
    Overruns text limit ↔ inside = 1 ∨ inside = 2 := by
  constructor
  · rintro ⟨before', inside', hcut', hinside⟩
    rwa [(hcut.unique hcut').2]
  · exact fun hinside => ⟨before, inside, hcut, hinside⟩

/-- What is kept of a text is read again as one token more than the limit admits if the cut
overruns, and otherwise as no more than that. -/
theorem exists_tokens {text : String} (hmark : Text.occurs reservedMark text = false) {limit : Nat}
    (hlimit : 0 < limit) :
    ∃ kept tokens, blocks.truncate text limit = .ok kept ∧ blocks.encode kept = .ok tokens ∧
      (Overruns text limit → tokens.length = limit + 1) ∧
      (¬Overruns text limit → tokens.length ≤ limit) := by
  by_cases hfits : (Utf8.encode text).length ≤ 3 * limit
  · refine ⟨text, _, truncate_of_fits hmark hfits, blocks_encode hmark, ?_, fun _ => ?_⟩
    · rintro ⟨before, inside, hcut, hinside⟩
      have hlt : 3 * limit < (Utf8.encode text).length := hcut.lt_length (by omega)
      omega
    · rw [length_threes]
      omega
  · obtain ⟨before, inside, hcut⟩ : ∃ before inside, CutAt text.toList (3 * limit) before inside :=
      Utf8.exists_cutAt (Nat.le_of_not_le hfits)
    refine ⟨_, _, truncate_of_cutAt hmark hlimit (Nat.lt_of_not_le hfits) hcut,
      blocks_encode (not_occurs_of_cutAt hmark hcut), fun hover => ?_, fun hover => ?_⟩
    · rw [tokens_of_cut hcut, if_pos ((overruns_iff hcut).1 hover)]
    · exact Nat.le_of_eq (by rw [tokens_of_cut hcut, if_neg (mt (overruns_iff hcut).2 hover)])

/-- **How many tokens are kept.** A text with surrogates is not cut at all. Of any other one without
the mark no more tokens are kept than the limit says, unless the cut overruns, and then it is one
token more. -/
theorem truncated_within_budget_iff (points : Text) {limit : Int} (hlimit : 0 < limit) :
    (∀ e, points.asString = .error e →
      blocks.truncatePoints points (.whole limit) = .error (.encode e)) ∧
    ∀ text, points.asString = .ok text → Text.occurs reservedMark text = false →
      ∃ kept : String, ∃ tokens, blocks.truncatePoints points (.whole limit) = .ok kept ∧
        blocks.encode kept = .ok tokens ∧ (tokens.length : Int) ≤ limit + 1 ∧
        ((tokens.length : Int) ≤ limit ↔ ¬Overruns text limit.toNat) := by
  constructor
  · intro e he
    rw [blocks.truncatePoints_of_pos points hlimit, he]
  · intro text htext hmark
    have hpos : 0 < limit.toNat := by omega
    obtain ⟨kept, tokens, hkept, htokens, hover, hunder⟩ := exists_tokens hmark hpos
    rw [Int.toNat_of_nonneg (Int.le_of_lt hlimit)] at hkept
    refine ⟨kept, tokens, ?_, htokens, ?_, ?_⟩
    · rw [blocks.truncatePoints_of_pos points hlimit, htext]
      dsimp only
      rw [hkept]
      rfl
    · by_cases h : Overruns text limit.toNat
      · have hlength := hover h
        omega
      · have hlength := hunder h
        omega
    · constructor
      · intro hle h
        have hlength := hover h
        omega
      · intro h
        have hlength := hunder h
        omega

/-- A text of two tokens whose first token ends between two characters. -/
theorem accent_within_budget :
    ∃ kept : String, ∃ tokens, blocks.truncatePoints "abcé" (.whole 1) = .ok kept ∧
      blocks.encode kept = .ok tokens ∧ (tokens.length : Int) ≤ 1 := by
  obtain ⟨kept, tokens, hkept, htokens, -, hbudget⟩ :=
    (truncated_within_budget_iff "abcé" Int.one_pos).2 "abcé" (Text.asString_ofString _)
      (by decide)
  have hcut : CutAt "abcé".toList (3 * 1) ['a', 'b', 'c'] 0 := ⟨rfl, ⟨['é'], rfl⟩, .inl rfl⟩
  exact ⟨kept, tokens, hkept, htokens, hbudget.2 (mt (overruns_iff hcut).1 (by decide))⟩

/-- A text of two tokens whose first token ends inside a character. -/
theorem accent_overruns_budget :
    Text.occurs reservedMark "aaé" = false ∧ blocks.truncate "aaé" 1 = .ok "aa\uFFFD" ∧
      blocks.encode "aa\uFFFD" = .ok [[0x61, 0x61, 0xef], [0xbf, 0xbd]] := by
  have hmark : Text.occurs reservedMark "aaé" = false := by decide
  have hcut : CutAt "aaé".toList (3 * 1) ['a', 'a'] 1 :=
    ⟨rfl, ⟨['é'], rfl⟩, .inr ⟨'é', [], rfl, by decide⟩⟩
  exact ⟨hmark, truncate_of_cutAt hmark (by decide) (by decide) hcut, blocks_encode (by decide)⟩

end Tokenizer

end CodeAtlas
