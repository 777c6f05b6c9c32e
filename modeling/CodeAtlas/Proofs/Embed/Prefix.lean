import CodeAtlas.Proofs.Embed.Budget

/-!
# What a cut keeps of a text

Of a text whose bytes do not fit into the tokens, the longest start in whole characters is kept that
does, and one replacement character for the bytes that are left of the next character, if there are
any (`Kept`). Cutting what is kept changes nothing any more. It may again be too long, by the bytes
that the replacement character has more than it replaces, but then the same cut falls inside that
character and puts another one for it (`truncate_remnant`).
-/

namespace CodeAtlas

namespace Tokenizer

open Utf8 (CutAt LongestStart remnant)

/-- What is kept of a text by a cut to `limit` tokens of three bytes. -/
inductive Kept (text : String) (limit : Int) : String → Prop
  | whole (hfits : limit ≤ 0 ∨ (Utf8.encode text).length ≤ 3 * limit) : Kept text limit text
  /-- The characters that fit take all the bytes. -/
  | full {start : String} (hlimit : 0 < limit) (hlong : 3 * limit < (Utf8.encode text).length)
      (hstart : LongestStart text (3 * limit.toNat) start)
      (hfull : (Utf8.encode start).length = 3 * limit) : Kept text limit start
  /-- They leave bytes of a character that does not fit. -/
  | torn {start : String} (hlimit : 0 < limit) (hlong : 3 * limit < (Utf8.encode text).length)
      (hstart : LongestStart text (3 * limit.toNat) start)
      (hleft : (Utf8.encode start).length < 3 * limit) : Kept text limit (start ++ "\uFFFD")

section
variable {text : String} {limit : Nat} {before : List Char} {inside : Nat}

theorem kept_of_cutAt (hlimit : 0 < limit) (hlong : 3 * limit < (Utf8.encode text).length)
    (hcut : CutAt text.toList (3 * limit) before inside) :
    Kept text limit (String.ofList (before ++ remnant inside)) := by
  have hstart : LongestStart text (3 * (limit : Int).toNat) (String.ofList before) :=
    hcut.longestStart
  have hplace : (Utf8.encode (String.ofList before)).length + inside = 3 * limit := by
    rw [Utf8.encode, String.toList_ofList]
    exact hcut.place
  rw [String.ofList_append]
  by_cases hinside : inside = 0
  · rw [remnant, if_pos hinside, String.ofList_nil, String.append_empty]
    exact .full (by omega) (by omega) hstart (by omega)
  · rw [remnant, if_neg hinside]
    exact .torn (by omega) (by omega) hstart (by omega)

/-- What a cut leaves is left as it is by the same cut. -/
theorem truncate_remnant (hmark : Text.occurs reservedMark text = false) (hlimit : 0 < limit)
    (hcut : CutAt text.toList (3 * limit) before inside) :
    blocks.truncate (String.ofList (before ++ remnant inside)) limit =
      .ok (String.ofList (before ++ remnant inside)) := by
  have hmark' := not_occurs_of_cutAt hmark hcut
  by_cases hfits : (Utf8.encode (String.ofList (before ++ remnant inside))).length ≤ 3 * limit
  · exact truncate_of_fits hmark' hfits
  · have hlong := Nat.lt_of_not_le hfits
    refine truncate_of_cutAt hmark' hlimit hlong ⟨hcut.place, ?_, ?_⟩
    · rw [String.toList_ofList]
      exact List.prefix_append ..
    · -- too long by a replacement character, so that the cut falls inside it
      have hplace := hcut.place
      rw [Utf8.encode, String.toList_ofList, List.flatMap_append, List.length_append] at hlong
      rw [String.toList_ofList]
      by_cases hinside : inside = 0
      · exact .inl hinside
      · rw [remnant, if_neg hinside] at hlong ⊢
        change _ < _ + 3 at hlong
        exact .inr ⟨'\uFFFD', [], rfl, by change inside < 3; omega⟩

end

theorem exists_kept {text : String} (hmark : Text.occurs reservedMark text = false) (limit : Int) :
    ∃ kept, blocks.truncate text limit = .ok kept ∧ Kept text limit kept ∧
      blocks.truncate kept limit = .ok kept := by
  by_cases hlimit : limit ≤ 0
  · have hcut : blocks.truncate text limit = .ok text := if_pos (by simpa using .inl hlimit)
    exact ⟨text, hcut, .whole (.inl hlimit), hcut⟩
  obtain ⟨n, rfl⟩ := Int.eq_ofNat_of_zero_le (Int.le_of_lt (Int.not_le.1 hlimit))
  have hpos : 0 < n := by omega
  by_cases hfits : (Utf8.encode text).length ≤ 3 * n
  · have hcut := truncate_of_fits hmark hfits
    exact ⟨text, hcut, .whole (.inr (by omega)), hcut⟩
  · have hlong := Nat.lt_of_not_le hfits
    obtain ⟨before, inside, hcut⟩ : ∃ before inside, CutAt text.toList (3 * n) before inside :=
      Utf8.exists_cutAt (Nat.le_of_lt hlong)
    exact ⟨_, truncate_of_cutAt hmark hpos hlong hcut, kept_of_cutAt hpos hlong hcut,
      truncate_remnant hmark hpos hcut⟩

/-- **What is kept of a text.** A limit that is not positive keeps every text, with surrogates or
not. A positive one needs the bytes of the text; it keeps all of it or its longest start that fits,
marked where a character was torn, and no more is lost by another cut. -/
theorem truncated_to_longest_start (points : Text) (limit : Int) :
    (limit ≤ 0 → blocks.truncatePoints points (.whole limit) = .ok points) ∧
    (0 < limit → ∀ e, points.asString = .error e →
      blocks.truncatePoints points (.whole limit) = .error (.encode e)) ∧
    ∀ text, points.asString = .ok text → Text.occurs reservedMark text = false →
      ∃ kept : String, blocks.truncatePoints points (.whole limit) = .ok kept ∧
        Kept text limit kept ∧ blocks.truncatePoints kept (.whole limit) = .ok kept := by
  refine ⟨fun hlimit => blocks.truncatePoints_of_nonpos points hlimit, fun hlimit e he => ?_,
    fun text htext hmark => ?_⟩
  · rw [blocks.truncatePoints_of_pos points hlimit, he]
  · obtain ⟨kept, hcut, hkept, hagain⟩ := exists_kept hmark limit
    refine ⟨kept, ?_, hkept, ?_⟩
    · rw [← Text.ofString_of_asString htext, blocks.truncatePoints_ofText, hcut]
      rfl
    · rw [blocks.truncatePoints_ofText, hagain]
      rfl

theorem torn_text_kept :
    blocks.truncatePoints ⟨[.surrogate 0]⟩ (.whole 0) = .ok ⟨[.surrogate 0]⟩ ∧
    blocks.truncatePoints ⟨[.surrogate 0]⟩ (.whole 1) = .error (.encode ⟨0, 0, 1⟩) ∧
    Text.occurs reservedMark "aa😀b" = false ∧
    ∃ kept : String, blocks.truncatePoints "aa😀b" (.whole 1) = .ok kept ∧
      Kept "aa😀b" 1 kept ∧ blocks.truncatePoints kept (.whole 1) = .ok kept := by
  have hmark : Text.occurs reservedMark "aa😀b" = false := by decide
  obtain ⟨-, -, hkept⟩ := truncated_to_longest_start "aa😀b" 1
  exact ⟨(truncated_to_longest_start _ 0).1 (Int.le_refl 0),
    (truncated_to_longest_start _ 1).2.1 Int.one_pos _ rfl, hmark,
    hkept _ (Text.asString_ofString _) hmark⟩

/-- A cut inside a character, and one inside the character that replaces it. -/
example :
    blocks.truncate "aa😀b" 1 = .ok "aa\uFFFD" ∧
      blocks.truncate "aa\uFFFD" 1 = .ok "aa\uFFFD" := by
  decide +kernel

end Tokenizer

end CodeAtlas
