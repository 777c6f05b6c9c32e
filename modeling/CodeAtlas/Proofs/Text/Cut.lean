import CodeAtlas.Proofs.Text.Utf8

/-!
# Texts cut at a byte

The bytes of a text may be cut between two characters or inside one (`CutAt`). What is left reads
as the characters before the cut, and a character that was cut short leaves one bad part, however
many of its bytes are left. So if bad parts are replaced, a cut text is

    decodeLossy ((encode text).take n) = String.ofList (before ++ remnant inside)   (CutAt.decodeLossy)

where `before` are the characters that fit into `n` bytes, and `inside` the bytes left after them.
-/

namespace CodeAtlas.Utf8

/-! ## Where a cut falls -/

/-- A cut of `cs` after `n` bytes: whole characters stand before it, then the first `inside` bytes
of a character of which more follow, if any. -/
structure CutAt (cs : List Char) (n : Nat) (before : List Char) (inside : Nat) : Prop where
  place : (before.flatMap String.utf8EncodeChar).length + inside = n
  prefix_of : before <+: cs
  cuts : inside = 0 ∨ ∃ c rest, cs = before ++ c :: rest ∧ inside < c.utf8Size

theorem CutAt.inside_lt {cs before : List Char} {n inside : Nat} (h : CutAt cs n before inside) :
    inside < 4 := by
  rcases h.cuts with h0 | ⟨c, rest, -, hlt⟩
  · omega
  · exact Nat.lt_of_lt_of_le hlt (Char.utf8Size_le_four c)

theorem CutAt.cons {cs before : List Char} {n inside : Nat} (h : CutAt cs n before inside)
    (c : Char) : CutAt (c :: cs) (c.utf8Size + n) (c :: before) inside where
  place := by
    rw [List.flatMap_cons, List.length_append, String.length_utf8EncodeChar, Nat.add_assoc, h.place]
  prefix_of := List.cons_prefix_cons.2 ⟨rfl, h.prefix_of⟩
  cuts := h.cuts.imp id fun ⟨d, rest, hcs, hlt⟩ => ⟨d, rest, by rw [hcs, List.cons_append], hlt⟩

/-- A cut inside a character leaves bytes behind. -/
theorem CutAt.lt_length {cs before : List Char} {n inside : Nat} (h : CutAt cs n before inside)
    (hinside : inside ≠ 0) : n < (cs.flatMap String.utf8EncodeChar).length := by
  have hplace := h.place
  obtain ⟨c, rest, rfl, hlt⟩ := h.cuts.resolve_left hinside
  rw [List.flatMap_append, List.length_append, List.flatMap_cons, List.length_append,
    String.length_utf8EncodeChar]
  omega

/-- What comes after a cut takes more bytes than are left before it. -/
theorem CutAt.inside_lt_next {cs before more : List Char} {n inside : Nat} {c : Char}
    (h : CutAt cs n before inside) (hnext : before ++ c :: more <+: cs) : inside < c.utf8Size := by
  rcases h.cuts with rfl | ⟨d, rest, hcs, hlt⟩
  · exact Char.utf8Size_pos c
  · rw [hcs, List.prefix_append_right_inj, List.cons_prefix_cons] at hnext
    rwa [hnext.1]

theorem CutAt.eq_of_le {cs before before' : List Char} {n inside inside' : Nat}
    (h : CutAt cs n before inside) (h' : CutAt cs n before' inside') (hle : before <+: before') :
    before = before' := by
  obtain ⟨more, rfl⟩ := hle
  cases more with
  | nil => rw [List.append_nil]
  | cons x more =>
    exfalso
    -- the longer one takes all of `x`, of which the shorter one takes a part only
    have hplace := h.place.trans h'.place.symm
    have hnext := h.inside_lt_next h'.prefix_of
    rw [List.flatMap_append, List.length_append, List.flatMap_cons, List.length_append,
      String.length_utf8EncodeChar] at hplace
    omega

/-- A cut falls at one place only. -/
theorem CutAt.unique {cs before before' : List Char} {n inside inside' : Nat}
    (h : CutAt cs n before inside) (h' : CutAt cs n before' inside') :
    before = before' ∧ inside = inside' := by
  have hbefore : before = before' := by
    rcases List.prefix_or_prefix_of_prefix h.prefix_of h'.prefix_of with hle | hle
    · exact h.eq_of_le h' hle
    · exact (h'.eq_of_le h hle).symm
  subst hbefore
  exact ⟨rfl, Nat.add_left_cancel (h.place.trans h'.place.symm)⟩

/-- A cut falls somewhere. -/
theorem exists_cutAt {cs : List Char} {n : Nat}
    (h : n ≤ (cs.flatMap String.utf8EncodeChar).length) : ∃ before inside, CutAt cs n before inside := by
  induction cs generalizing n with
  | nil =>
    obtain rfl : n = 0 := Nat.le_zero.1 h
    exact ⟨[], 0, rfl, List.nil_prefix, .inl rfl⟩
  | cons c cs ih =>
    rw [List.flatMap_cons, List.length_append, String.length_utf8EncodeChar] at h
    by_cases hc : c.utf8Size ≤ n
    · obtain ⟨before, inside, hcut⟩ := ih (n := n - c.utf8Size) (by omega)
      have hcons := hcut.cons c
      rw [Nat.add_sub_cancel' hc] at hcons
      exact ⟨c :: before, inside, hcons⟩
    · exact ⟨[], n, Nat.zero_add n, List.nil_prefix, .inr ⟨c, cs, rfl, by omega⟩⟩

/-- The longest start of a text, in whole characters, that fits into so many bytes. -/
structure LongestStart (text : String) (room : Nat) (start : String) : Prop where
  starts : start.toList <+: text.toList
  fits : (encode start).length ≤ room
  longest : ∀ other : String, other.toList <+: text.toList → (encode other).length ≤ room →
    other.toList <+: start.toList

/-- The characters before a cut are those that fit. -/
theorem CutAt.longestStart {text : String} {before : List Char} {n inside : Nat}
    (h : CutAt text.toList n before inside) : LongestStart text n (String.ofList before) := by
  have hplace := h.place
  refine ⟨?_, ?_, fun other hother hfits => ?_⟩
  · rw [String.toList_ofList]
    exact h.prefix_of
  · rw [encode, String.toList_ofList]
    omega
  · rw [String.toList_ofList]
    rcases List.prefix_or_prefix_of_prefix hother h.prefix_of with hle | ⟨more, hmore⟩
    · exact hle
    cases more with
    | nil =>
      rw [List.append_nil] at hmore
      exact hmore ▸ List.prefix_rfl
    | cons c more =>
      exfalso
      -- `c` would have to fit into the bytes that are left
      have hnext := h.inside_lt_next (hmore ▸ hother)
      rw [encode, ← hmore, List.flatMap_append, List.length_append, List.flatMap_cons,
        List.length_append, String.length_utf8EncodeChar] at hfits
      omega

/-! ## What is left of a text -/

theorem pieces_utf8EncodeChar_append (c : Char) (rest : List UInt8) :
    pieces (String.utf8EncodeChar c ++ rest) = .char c :: pieces rest := by
  obtain ⟨b, tail, hc⟩ := List.exists_cons_of_ne_nil (String.utf8EncodeChar_ne_nil (c := c))
  have hfirst := firstPiece_eq_char_iff.2 ⟨tail, rest, hc, rfl, rfl⟩
  rw [hc, List.cons_append, pieces, hfirst, List.drop_left]

theorem pieces_flatMap_append (cs : List Char) (rest : List UInt8) :
    pieces (cs.flatMap String.utf8EncodeChar ++ rest) = cs.map .char ++ pieces rest := by
  induction cs with
  | nil => rfl
  | cons c cs ih =>
    rw [List.flatMap_cons, List.append_assoc, pieces_utf8EncodeChar_append, ih]
    rfl

/-- Bytes each of which may come next in a character of which `seen` bytes were read. -/
def Follow (lead : UInt8) : Nat → List UInt8 → Prop
  | _, [] => True
  | seen, b :: bs => mayFollow lead seen b = true ∧ Follow lead (seen + 1) bs

theorem Follow.take {lead : UInt8} {seen : Nat} {bs : List UInt8} (h : Follow lead seen bs)
    (k : Nat) : Follow lead seen (bs.take k) := by
  induction bs generalizing seen k with
  | nil => rwa [List.take_nil]
  | cons b bs ih =>
    cases k with
    | zero => exact trivial
    | succ k => exact ⟨h.1, ih h.2 k⟩

/-- A character that ends too early is bad as far as it goes. -/
theorem continued_short {lead : UInt8} {seen point need : Nat} {bs : List UInt8}
    (h : Follow lead seen bs) (hshort : bs.length < need) :
    continued lead seen point need bs =
      (.bad lead (seen + bs.length) .endOfData, seen + bs.length - 1) := by
  induction bs generalizing seen point need with
  | nil =>
    obtain ⟨need, rfl⟩ := Nat.exists_eq_add_one_of_ne_zero (Nat.ne_of_gt hshort)
    rfl
  | cons b bs ih =>
    obtain ⟨need, rfl⟩ := Nat.exists_eq_add_one_of_ne_zero (Nat.ne_of_gt (Nat.zero_lt_of_lt hshort))
    have hlength : seen + (b :: bs).length = seen + 1 + bs.length := by
      rw [List.length_cons]
      omega
    rw [continued_cons h.1, ih h.2 (Nat.lt_of_succ_lt_succ hshort), hlength]

/-- What the reader asks of the bytes after the lead byte of a code, and how many it waits for. -/
theorem follow_of_codes {a : UInt8} {tail : List UInt8} {n : Nat} (h : Codes (a :: tail) n)
    (hne : tail ≠ []) :
    Follow a 1 tail ∧ ∃ point, ∀ bs, firstPiece a bs = continued a 1 point tail.length bs := by
  cases h with
  | one ha => exact absurd rfl hne
  | @two _ b _ ha hb hn shortest =>
    refine ⟨⟨isSecond_iff.2 (by omega), trivial⟩, a.toNat % 0x20, fun bs => ?_⟩
    rw [firstPiece_eq, if_neg (by omega), if_neg (by omega), if_pos (by omega)]
    rfl
  | @three _ b c _ ha hb hc hn shortest noSurrogate =>
    refine ⟨⟨isSecond_iff.2 (by omega), isContinuation_iff.2 hc, trivial⟩, a.toNat % 0x10,
      fun bs => ?_⟩
    rw [firstPiece_eq, if_neg (by omega), if_neg (by omega), if_neg (by omega), if_pos (by omega)]
    rfl
  | @four _ b c d _ ha hb hc hd hn shortest inRange =>
    refine ⟨⟨isSecond_iff.2 (by omega), isContinuation_iff.2 hc, isContinuation_iff.2 hd, trivial⟩,
      a.toNat % 0x08, fun bs => ?_⟩
    rw [firstPiece_eq, if_neg (by omega), if_neg (by omega), if_neg (by omega), if_neg (by omega),
      if_pos (by omega)]
    rfl

/-- Of a character that is cut short one bad part is left. -/
theorem pieces_take_utf8EncodeChar {c : Char} {k : Nat} (hpos : 0 < k) (hlt : k < c.utf8Size) :
    ∃ lead, pieces ((String.utf8EncodeChar c).take k) = [.bad lead k .endOfData] := by
  obtain ⟨a, tail, hc⟩ := List.exists_cons_of_ne_nil (String.utf8EncodeChar_ne_nil (c := c))
  have hlength : tail.length + 1 = c.utf8Size := by
    rw [← String.length_utf8EncodeChar, hc, List.length_cons]
  have hcodes := codes_utf8EncodeChar c
  rw [hc] at hcodes
  have hne : tail ≠ [] := by
    rintro rfl
    rw [List.length_nil] at hlength
    omega
  obtain ⟨hfollow, point, hfirst⟩ := follow_of_codes hcodes hne
  obtain ⟨k, rfl⟩ := Nat.exists_eq_add_one_of_ne_zero (Nat.ne_of_gt hpos)
  have htake : (tail.take k).length = k := by
    rw [List.length_take]
    omega
  have hpiece : firstPiece a (tail.take k) = (.bad a (k + 1) .endOfData, k) := by
    rw [hfirst, continued_short (hfollow.take k) (by omega), htake, Nat.add_comm 1 k,
      Nat.add_sub_cancel]
  refine ⟨a, ?_⟩
  rw [hc, List.take_succ_cons, pieces, hpiece, List.drop_eq_nil_of_le (Nat.le_of_eq htake),
    pieces]

/-- What replaces the bytes of a character that was cut short, if there are any. -/
def remnant (inside : Nat) : List Char := if inside = 0 then [] else ['\uFFFD']

/-- **What a cut text reads as**: the characters before the cut, and one replacement character if
it falls inside another one. -/
theorem CutAt.decodeLossy {text : String} {before : List Char} {n inside : Nat}
    (h : CutAt text.toList n before inside) :
    decodeLossy ((encode text).take n) = String.ofList (before ++ remnant inside) := by
  have hpieces : ∃ bad : List Piece, pieces ((encode text).take n) = before.map .char ++ bad ∧
      bad.map Piece.orReplacement = remnant inside := by
    unfold encode remnant
    rcases h.cuts with rfl | ⟨c, rest, hcs, hlt⟩
    · obtain ⟨rest, hrest⟩ := h.prefix_of
      refine ⟨[], ?_, rfl⟩
      rw [← hrest, List.flatMap_append, ← h.place, Nat.add_zero, List.take_left, List.append_nil]
      exact pieces_eq_chars_iff.2 rfl
    · rw [hcs, List.flatMap_append, ← h.place, List.take_length_add_append, List.flatMap_cons,
        List.take_append_of_le_length (by rw [String.length_utf8EncodeChar]; exact Nat.le_of_lt hlt),
        pieces_flatMap_append]
      rcases Nat.eq_zero_or_pos inside with rfl | hpos
      · refine ⟨[], ?_, rfl⟩
        rw [List.take_zero, pieces]
      · obtain ⟨lead, hbad⟩ := pieces_take_utf8EncodeChar hpos hlt
        rw [hbad, if_neg (by omega)]
        exact ⟨_, rfl, rfl⟩
  obtain ⟨bad, hpieces, hbad⟩ := hpieces
  have hchars : (before.map Piece.char).map Piece.orReplacement = before := by
    rw [List.map_map]
    exact List.map_id before
  rw [Utf8.decodeLossy, hpieces, List.map_append, hchars, hbad]

/-- Texts cut in the middle of a character of two, three and four bytes. -/
example : decodeLossy ((encode "aé").take 2) = "a\uFFFD" ∧
    decodeLossy ((encode "a€").take 3) = "a\uFFFD" ∧
    decodeLossy ((encode "a😀").take 4) = "a\uFFFD" := by decide +kernel

end CodeAtlas.Utf8
