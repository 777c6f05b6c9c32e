import CodeAtlas.Text.Utf8
import Mathlib.Data.List.Forall2
import Mathlib.Tactic.Common

/-!
# Reading and writing UTF-8

The bytes of a character are laid out by its size: one byte, or a lead byte and one to three
continuation bytes of six bits each. Of the layouts of a code point only the shortest one counts, and
surrogates and points beyond the last one have none (`Codes`).

The writer puts down the code of each character (`codes_iff`). The reader sees no code point before
it has read all bytes of it: it tells the bad ones by the lead byte and the byte after that. Still it
takes the codes of characters and no others (`firstPiece_eq_char_iff`), so what it accepts is what
the writer makes of a text, and it gives back this text:

    decode bytes = .ok text ↔ encode text = bytes                              (decode_eq_ok_iff)

Overlong forms, surrogates and characters cut short are thereby refused. A slice of valid bytes
between two boundaries of characters is valid again (`exists_encode_between`).
-/

namespace CodeAtlas.Utf8

/-! ## The bytes of one character -/

/-- The bytes of a character and its code point: the shortest layout of a point that is no surrogate
and not beyond the last one. -/
inductive Codes : List UInt8 → Nat → Prop
  | one {a : UInt8} (ha : a.toNat < 0x80) : Codes [a] a.toNat
  | two {a b : UInt8} {n : Nat} (ha : 0xc0 ≤ a.toNat ∧ a.toNat < 0xe0)
      (hb : 0x80 ≤ b.toNat ∧ b.toNat < 0xc0)
      (hn : n = (a.toNat - 0xc0) * 0x40 + (b.toNat - 0x80))
      (shortest : 0x80 ≤ n) : Codes [a, b] n
  | three {a b c : UInt8} {n : Nat} (ha : 0xe0 ≤ a.toNat ∧ a.toNat < 0xf0)
      (hb : 0x80 ≤ b.toNat ∧ b.toNat < 0xc0) (hc : 0x80 ≤ c.toNat ∧ c.toNat < 0xc0)
      (hn : n = (a.toNat - 0xe0) * 0x1000 + (b.toNat - 0x80) * 0x40 + (c.toNat - 0x80))
      (shortest : 0x800 ≤ n) (noSurrogate : n < 0xd800 ∨ 0xdfff < n) : Codes [a, b, c] n
  | four {a b c d : UInt8} {n : Nat} (ha : 0xf0 ≤ a.toNat ∧ a.toNat < 0xf8)
      (hb : 0x80 ≤ b.toNat ∧ b.toNat < 0xc0) (hc : 0x80 ≤ c.toNat ∧ c.toNat < 0xc0)
      (hd : 0x80 ≤ d.toNat ∧ d.toNat < 0xc0)
      (hn : n = (a.toNat - 0xf0) * 0x40000 + (b.toNat - 0x80) * 0x1000 + (c.toNat - 0x80) * 0x40 +
        (d.toNat - 0x80))
      (shortest : 0x10000 ≤ n) (inRange : n < 0x110000) : Codes [a, b, c, d] n

theorem Codes.isValidChar {bytes : List UInt8} {n : Nat} (h : Codes bytes n) : n.isValidChar := by
  unfold Nat.isValidChar
  cases h <;> omega

/-! ### The writer -/

theorem toNat_ofNat_of_lt {n : Nat} (h : n < 0x100) : (UInt8.ofNat n).toNat = n := by
  rw [UInt8.toNat_ofNat']
  exact Nat.mod_eq_of_lt h

theorem codes_utf8EncodeChar (c : Char) : Codes (String.utf8EncodeChar c) c.toNat := by
  have hvalid : c.toNat < 0xd800 ∨ 0xdfff < c.toNat ∧ c.toNat < 0x110000 := c.valid
  have hval : c.val.toNat = c.toNat := rfl
  unfold String.utf8EncodeChar
  rw [hval]
  dsimp only
  generalize c.toNat = n at hvalid
  -- every byte that is written is below 256, so it keeps its value
  split_ifs with h1 h2 h3
  · have ha : (UInt8.ofNat n).toNat = n := toNat_ofNat_of_lt (by omega)
    have h := Codes.one (a := UInt8.ofNat n) (by omega)
    rwa [ha] at h
  · apply Codes.two <;> (repeat rw [toNat_ofNat_of_lt (by omega)]) <;> omega
  · apply Codes.three <;> (repeat rw [toNat_ofNat_of_lt (by omega)]) <;> omega
  · apply Codes.four <;> (repeat rw [toNat_ofNat_of_lt (by omega)]) <;> omega

theorem ofNat_eq {b : UInt8} {n : Nat} (h : n = b.toNat) : UInt8.ofNat n = b := by
  rw [h, UInt8.ofNat_toNat]

theorem utf8EncodeChar_of_codes {bytes : List UInt8} {c : Char} (h : Codes bytes c.toNat) :
    String.utf8EncodeChar c = bytes := by
  have hval : c.val.toNat = c.toNat := rfl
  unfold String.utf8EncodeChar
  rw [hval]
  dsimp only
  generalize c.toNat = n at h
  cases h with
  | one ha => rw [if_pos (by omega), UInt8.ofNat_toNat]
  | two ha hb hn shortest =>
    rw [if_neg (by omega), if_pos (by omega)]
    simp only [List.cons.injEq, and_true]
    exact ⟨ofNat_eq (by omega), ofNat_eq (by omega)⟩
  | three ha hb hc hn shortest noSurrogate =>
    rw [if_neg (by omega), if_neg (by omega), if_pos (by omega)]
    simp only [List.cons.injEq, and_true]
    exact ⟨ofNat_eq (by omega), ofNat_eq (by omega), ofNat_eq (by omega)⟩
  | four ha hb hc hd hn shortest inRange =>
    rw [if_neg (by omega), if_neg (by omega), if_neg (by omega)]
    simp only [List.cons.injEq, and_true]
    exact ⟨ofNat_eq (by omega), ofNat_eq (by omega), ofNat_eq (by omega), ofNat_eq (by omega)⟩

theorem codes_iff {bytes : List UInt8} {c : Char} :
    Codes bytes c.toNat ↔ String.utf8EncodeChar c = bytes := by
  constructor
  · exact utf8EncodeChar_of_codes
  · rintro rfl
    exact codes_utf8EncodeChar c

/-! ### The reader -/

theorem isContinuation_iff {b : UInt8} :
    isContinuation b = true ↔ 0x80 ≤ b.toNat ∧ b.toNat < 0xc0 := by
  simp only [isContinuation, Bool.and_eq_true, decide_eq_true_eq, UInt8.le_iff_toNat_le]
  show 0x80 ≤ b.toNat ∧ b.toNat ≤ 0xbf ↔ _
  omega

theorem isSecond_iff {a b : UInt8} :
    isSecond a b = true ↔ (0x80 ≤ b.toNat ∧ b.toNat < 0xc0) ∧ (a.toNat = 0xe0 → 0xa0 ≤ b.toNat) ∧
      (a.toNat = 0xed → b.toNat < 0xa0) ∧ (a.toNat = 0xf0 → 0x90 ≤ b.toNat) ∧
      (a.toNat = 0xf4 → b.toNat < 0x90) := by
  simp only [isSecond, Bool.and_eq_true, Bool.not_eq_true', Bool.and_eq_false_iff,
    isContinuation_iff, beq_eq_false_iff_ne, ne_eq, decide_eq_false_iff_not, ← UInt8.toNat_inj,
    gt_iff_lt, UInt8.lt_iff_toNat_lt, UInt8.reduceToNat]
  omega

/-- How a character begins, by its lead byte. -/
theorem firstPiece_eq (a : UInt8) (bs : List UInt8) :
    firstPiece a bs =
      if a.toNat < 0x80 then (.char (Char.ofNat a.toNat), 0)
      else if a.toNat < 0xc2 then (.bad a 1 .startByte, 0)
      else if a.toNat < 0xe0 then continued a 1 (a.toNat % 0x20) 1 bs
      else if a.toNat < 0xf0 then continued a 1 (a.toNat % 0x10) 2 bs
      else if a.toNat < 0xf5 then continued a 1 (a.toNat % 0x08) 3 bs
      else (.bad a 1 .startByte, 0) := by
  unfold firstPiece following leadBits
  simp only [UInt8.lt_iff_toNat_lt, UInt8.reduceToNat]
  split_ifs <;> rfl

/-- Whether a byte may come next in a character of which `seen` bytes were read. -/
def mayFollow (lead : UInt8) (seen : Nat) (b : UInt8) : Bool :=
  if seen == 1 then isSecond lead b else isContinuation b

theorem continued_cons {lead b : UInt8} {seen : Nat} (hb : mayFollow lead seen b = true)
    (point need : Nat) (rest : List UInt8) :
    continued lead seen point (need + 1) (b :: rest) =
      continued lead (seen + 1) (point * 0x40 + b.toNat % 0x40) need rest := by
  rw [continued]
  exact if_pos hb

/-- A character that is not complete goes on with a byte that may come next. -/
theorem continued_eq_char {lead : UInt8} {seen point need : Nat} {bs : List UInt8} {c : Char}
    {k : Nat} (h : continued lead seen point (need + 1) bs = (.char c, k)) :
    ∃ b rest, bs = b :: rest ∧ mayFollow lead seen b = true ∧
      continued lead (seen + 1) (point * 0x40 + b.toNat % 0x40) need rest = (.char c, k) := by
  cases bs with
  | nil => cases h
  | cons b rest =>
    by_cases hb : mayFollow lead seen b = true
    · rw [continued_cons hb] at h
      exact ⟨b, rest, rfl, hb, h⟩
    · rw [continued] at h
      unfold mayFollow at hb
      rw [if_neg hb] at h
      cases h

theorem firstPiece_of_codes {a : UInt8} {tail : List UInt8} {n : Nat} (h : Codes (a :: tail) n)
    (rest : List UInt8) : firstPiece a (tail ++ rest) = (.char (Char.ofNat n), tail.length) := by
  rw [firstPiece_eq]
  cases h with
  | one ha =>
    rw [if_pos ha]
    rfl
  | @two _ b _ ha hb hn shortest =>
    have hsecond : mayFollow a 1 b = true := isSecond_iff.2 (by omega)
    have hpoint : a.toNat % 0x20 * 0x40 + b.toNat % 0x40 = n := by omega
    rw [if_neg (by omega), if_neg (by omega), if_pos (by omega), List.cons_append,
      continued_cons hsecond, continued, hpoint]
    rfl
  | @three _ b c _ ha hb hc hn shortest noSurrogate =>
    have hsecond : mayFollow a 1 b = true := isSecond_iff.2 (by omega)
    have hthird : mayFollow a 2 c = true := isContinuation_iff.2 hc
    have hpoint : (a.toNat % 0x10 * 0x40 + b.toNat % 0x40) * 0x40 + c.toNat % 0x40 = n := by omega
    rw [if_neg (by omega), if_neg (by omega), if_neg (by omega), if_pos (by omega),
      List.cons_append, continued_cons hsecond, List.cons_append, continued_cons hthird, continued,
      hpoint]
    rfl
  | @four _ b c d _ ha hb hc hd hn shortest inRange =>
    have hsecond : mayFollow a 1 b = true := isSecond_iff.2 (by omega)
    have hthird : mayFollow a 2 c = true := isContinuation_iff.2 hc
    have hfourth : mayFollow a 3 d = true := isContinuation_iff.2 hd
    have hpoint : ((a.toNat % 0x08 * 0x40 + b.toNat % 0x40) * 0x40 + c.toNat % 0x40) * 0x40 +
        d.toNat % 0x40 = n := by omega
    rw [if_neg (by omega), if_neg (by omega), if_neg (by omega), if_neg (by omega),
      if_pos (by omega), List.cons_append, continued_cons hsecond, List.cons_append,
      continued_cons hthird, List.cons_append, continued_cons hfourth, continued, hpoint]
    rfl

theorem codes_of_firstPiece {a : UInt8} {bs : List UInt8} {c : Char} {k : Nat}
    (h : firstPiece a bs = (.char c, k)) :
    ∃ tail rest n, bs = tail ++ rest ∧ k = tail.length ∧ Codes (a :: tail) n ∧ c = Char.ofNat n := by
  rw [firstPiece_eq] at h
  -- what `isSecond` asks for is that the form is the shortest and the point one of a character
  split_ifs at h with h80 hc2 he0 hf0 hf5
  · cases h
    exact ⟨[], bs, a.toNat, rfl, rfl, .one h80, rfl⟩
  · cases h
  · obtain ⟨b, rest, rfl, hb, h⟩ := continued_eq_char h
    have hb := isSecond_iff.1 hb
    cases h
    exact ⟨[b], rest, _, rfl, rfl, .two (by omega) (by omega) (by omega) (by omega), rfl⟩
  · obtain ⟨b, rest, rfl, hb, h⟩ := continued_eq_char h
    obtain ⟨d, rest, rfl, hd, h⟩ := continued_eq_char h
    have hb := isSecond_iff.1 hb
    have hd := isContinuation_iff.1 hd
    cases h
    exact ⟨[b, d], rest, _, rfl, rfl,
      .three (by omega) (by omega) (by omega) (by omega) (by omega) (by omega), rfl⟩
  · obtain ⟨b, rest, rfl, hb, h⟩ := continued_eq_char h
    obtain ⟨d, rest, rfl, hd, h⟩ := continued_eq_char h
    obtain ⟨e, rest, rfl, he, h⟩ := continued_eq_char h
    have hb := isSecond_iff.1 hb
    have hd := isContinuation_iff.1 hd
    have he := isContinuation_iff.1 he
    cases h
    exact ⟨[b, d, e], rest, _, rfl, rfl,
      .four (by omega) (by omega) (by omega) (by omega) (by omega) (by omega) (by omega), rfl⟩
  · cases h

theorem toNat_ofNat_of_isValidChar {n : Nat} (h : n.isValidChar) : (Char.ofNat n).toNat = n := by
  unfold Char.ofNat
  rw [dif_pos h]
  rfl

/-- The reader takes a character where the writer puts one. -/
theorem firstPiece_eq_char_iff {a : UInt8} {bs : List UInt8} {c : Char} {k : Nat} :
    firstPiece a bs = (.char c, k) ↔
      ∃ tail rest, String.utf8EncodeChar c = a :: tail ∧ bs = tail ++ rest ∧ k = tail.length := by
  constructor
  · intro h
    obtain ⟨tail, rest, n, hbs, hk, hcodes, rfl⟩ := codes_of_firstPiece h
    refine ⟨tail, rest, codes_iff.1 ?_, hbs, hk⟩
    rwa [toNat_ofNat_of_isValidChar hcodes.isValidChar]
  · rintro ⟨tail, rest, hc, rfl, rfl⟩
    rw [firstPiece_of_codes (codes_iff.2 hc), Char.ofNat_toNat]

/-! ## Whole texts -/

theorem pieces_eq_chars_iff {bytes : List UInt8} {cs : List Char} :
    pieces bytes = cs.map .char ↔ cs.flatMap String.utf8EncodeChar = bytes := by
  induction cs generalizing bytes with
  | nil => cases bytes <;> simp [pieces]
  | cons c cs ih =>
    rw [List.map_cons, List.flatMap_cons]
    constructor
    · intro h
      cases bytes with
      | nil =>
        rw [pieces] at h
        cases h
      | cons b bs =>
        obtain ⟨piece, k, hpiece⟩ : ∃ piece k, firstPiece b bs = (piece, k) := ⟨_, _, rfl⟩
        rw [pieces, hpiece, List.cons.injEq] at h
        obtain ⟨rfl, hrest⟩ := h
        obtain ⟨tail, rest, hc, rfl, rfl⟩ := firstPiece_eq_char_iff.1 hpiece
        rw [List.drop_left, ih] at hrest
        rw [hc, hrest, List.cons_append]
    · rintro rfl
      obtain ⟨b, tail, hc⟩ := List.exists_cons_of_ne_nil (String.utf8EncodeChar_ne_nil (c := c))
      have hfirst := firstPiece_eq_char_iff.2 ⟨tail, cs.flatMap String.utf8EncodeChar, hc, rfl, rfl⟩
      rw [hc, List.cons_append, pieces, hfirst, List.drop_left, ih.2 rfl]

theorem strict_eq_ok_iff {offset : Nat} {ps : List Piece} {cs : List Char} :
    strict offset ps = .ok cs ↔ ps = cs.map .char := by
  induction ps generalizing offset cs with
  | nil => cases cs <;> simp [strict]
  | cons p ps ih =>
    cases p with
    | bad first length reason => cases cs <;> simp [strict]
    | char c =>
      rw [strict]
      constructor
      · intro h
        cases hs : strict (offset + c.utf8Size) ps with
        | error e =>
          rw [hs] at h
          cases h
        | ok ds =>
          rw [hs] at h
          cases h
          rw [ih.1 hs, List.map_cons]
      · intro h
        cases cs with
        | nil => cases h
        | cons d ds =>
          rw [List.map_cons, List.cons.injEq] at h
          obtain ⟨hd, hps⟩ := h
          cases hd
          rw [ih.2 hps]
          rfl

/-- Reading and writing are inverse: the reader accepts what the writer makes of a text, and nothing
else. -/
theorem decode_eq_ok_iff {bytes : List UInt8} {text : String} :
    decode bytes = .ok text ↔ encode text = bytes := by
  have hdecode : decode bytes = .ok text ↔ strict 0 (pieces bytes) = .ok text.toList := by
    unfold decode
    cases strict 0 (pieces bytes) with
    | error e => simp [Except.map]
    | ok cs => simp [Except.map, ← String.toList_inj]
  rw [hdecode, strict_eq_ok_iff, pieces_eq_chars_iff]
  rfl

@[simp] theorem decode_encode (text : String) : decode (encode text) = .ok text :=
  decode_eq_ok_iff.2 rfl

/-- The bytes of texts are the valid ones. -/
theorem isValidUTF8_iff {bytes : List UInt8} :
    bytes.toByteArray.IsValidUTF8 ↔ ∃ text, encode text = bytes := by
  constructor
  · rintro ⟨cs, h⟩
    have hbytes : bytes = cs.flatMap String.utf8EncodeChar := List.toByteArray_inj.1 h
    refine ⟨String.ofList cs, ?_⟩
    rw [hbytes, encode, String.toList_ofList]
  · rintro ⟨text, rfl⟩
    exact ⟨text.toList, rfl⟩

/-- What is not valid is refused. -/
theorem exists_decode_error {bytes : List UInt8} (h : ¬ bytes.toByteArray.IsValidUTF8) :
    ∃ e, decode bytes = .error e := by
  cases hd : decode bytes with
  | error e => exact ⟨e, rfl⟩
  | ok text => exact absurd (isValidUTF8_iff.2 ⟨text, decode_eq_ok_iff.1 hd⟩) h

/-- An overlong form, a surrogate and a character cut short. -/
example : decode [0xc0, 0x80] = .error ⟨0xc0, 0, 1, .startByte⟩ ∧
    decode [0xed, 0xa0, 0x80] = .error ⟨0xed, 0, 1, .continuationByte⟩ ∧
    decode [0x41, 0xf0, 0x9f, 0x98] = .error ⟨0xf0, 1, 4, .endOfData⟩ := by decide +kernel

/-! ## Places between characters -/

/-- A place before which whole characters stand. -/
structure IsBoundary (bytes : List UInt8) (place : Int) : Prop where
  nonneg : 0 ≤ place
  inside : place ≤ bytes.length
  valid : (bytes.take place.toNat).toByteArray.IsValidUTF8

instance (bytes : List UInt8) (place : Int) : Decidable (IsBoundary bytes place) :=
  decidable_of_iff
    (0 ≤ place ∧ place ≤ bytes.length ∧ (bytes.take place.toNat).toByteArray.IsValidUTF8)
    ⟨fun ⟨hnonneg, hinside, hvalid⟩ => ⟨hnonneg, hinside, hvalid⟩,
      fun h => ⟨h.nonneg, h.inside, h.valid⟩⟩

theorem encode_append (s t : String) : encode (s ++ t) = encode s ++ encode t := by
  unfold encode
  rw [String.toList_append, List.flatMap_append]

/-- A text whose bytes begin with those of another one begins with the other one. -/
theorem exists_append_of_encode_prefix {s t : String} (h : encode s <+: encode t) :
    ∃ code, t = s ++ code := by
  obtain ⟨rest, hrest⟩ := h
  have hbytes : s.toList.utf8Encode ++ rest.toByteArray = t.toList.utf8Encode := by
    unfold List.utf8Encode
    rw [← List.toByteArray_append]
    exact congrArg List.toByteArray hrest
  obtain ⟨cs, hcs⟩ := List.isPrefix_of_utf8Encode_append_eq_utf8Encode _ hbytes
  refine ⟨String.ofList cs, ?_⟩
  rw [← String.toList_inj, String.toList_append, String.toList_ofList, hcs]

/-- Between two boundaries stands a text. -/
theorem exists_encode_between {bytes : List UInt8} {start stop : Int}
    (hstart : IsBoundary bytes start) (hstop : IsBoundary bytes stop) (hle : start ≤ stop) :
    ∃ code, encode code = (bytes.take stop.toNat).drop start.toNat := by
  obtain ⟨s, hs⟩ := isValidUTF8_iff.1 hstart.valid
  obtain ⟨t, ht⟩ := isValidUTF8_iff.1 hstop.valid
  have hst : encode s <+: encode t := by
    rw [hs, ht]
    exact List.take_prefix_take_left (Int.toNat_le_toNat hle)
  obtain ⟨code, rfl⟩ := exists_append_of_encode_prefix hst
  have hlength : (encode s).length = start.toNat := by
    have hinside := hstart.inside
    rw [hs, List.length_take]
    omega
  refine ⟨code, ?_⟩
  rw [← ht, encode_append, ← hlength, List.drop_left]

end CodeAtlas.Utf8
