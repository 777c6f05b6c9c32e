import CodeAtlas.Proofs.Text.Utf8
import CodeAtlas.Proofs.Unit.Nameable

/-!
# The text of a unit is its span

Let the source be valid and its tree without error, and let the spans of the nodes run from one
boundary of characters to another (`Span.OnBoundaries`). Then the text of a unit consists of the very
bytes between the offsets of its node:

    Utf8.encode code = (c.bytes.take u.span.endByte.toNat).drop u.span.startByte.toNat

and extraction fails only if a unit cannot be named. By structure this happens to all units of a
file whose path has no UTF-8 (`stray_path_refused`). Bytes that are not valid are refused with an
error that is the same whatever grammars there are, so no tree has been looked at
(`units_span_exactly`).
-/

namespace CodeAtlas

/-- A slice between places that do not count from the end. -/
theorem byteSlice_of_nonneg (source : List UInt8) {start stop : Int} (hstart : 0 ≤ start)
    (hstop : 0 ≤ stop) :
    byteSlice source start stop = (source.take stop.toNat).drop start.toNat := by
  unfold byteSlice bytePlace
  rw [if_neg (by omega), if_neg (by omega)]

namespace Span

/-- The span runs from one boundary of characters to another. -/
structure OnBoundaries (source : List UInt8) (s : Span) : Prop where
  ordered : s.startByte ≤ s.endByte
  start : Utf8.IsBoundary source s.startByte
  stop : Utf8.IsBoundary source s.endByte

instance (source : List UInt8) (s : Span) : Decidable (s.OnBoundaries source) :=
  decidable_of_iff
    (s.startByte ≤ s.endByte ∧ Utf8.IsBoundary source s.startByte ∧
      Utf8.IsBoundary source s.endByte)
    ⟨fun ⟨hordered, hstart, hstop⟩ => ⟨hordered, hstart, hstop⟩,
      fun h => ⟨h.ordered, h.start, h.stop⟩⟩

variable {source : List UInt8} {s : Span}

theorem OnBoundaries.byteSlice_eq (h : s.OnBoundaries source) :
    byteSlice source s.startByte s.endByte =
      (source.take s.endByte.toNat).drop s.startByte.toNat :=
  byteSlice_of_nonneg source h.start.nonneg h.stop.nonneg

theorem OnBoundaries.exists_decode (h : s.OnBoundaries source) :
    ∃ code, Utf8.decode (byteSlice source s.startByte s.endByte) = .ok code := by
  obtain ⟨code, hcode⟩ := Utf8.exists_encode_between h.start h.stop h.ordered
  refine ⟨code, ?_⟩
  rw [h.byteSlice_eq, Utf8.decode_eq_ok_iff, hcode]

end Span

namespace Extract

/-! ## What a call does with its content -/

/-- The content of the call is a text that has UTF-8, or the UTF-8 of one. -/
def Call.IsValid (c : Call) : Prop :=
  match c.content with
  | .inl text => text.encodeError? = none
  | .inr bytes => bytes.toByteArray.IsValidUTF8

namespace Call

variable {c : Call}

theorem result_of_isValid (h : c.IsValid) :
    c.result = extractText c.languages c.grammars c.settings c.bytes c.tag c.filePath := by
  unfold IsValid at h
  unfold result bytes
  cases hc : c.content with
  | inl text =>
    rw [hc] at h
    obtain ⟨s, hs, rfl⟩ := Text.asString_of_encodeError? h
    dsimp only
    unfold extractString extractText
    rw [hs, Text.bytes_ofString]
    cases Language.ofTag? c.languages c.tag <;> rfl
  | inr bytes =>
    rw [hc] at h
    obtain ⟨text, rfl⟩ := Utf8.isValidUTF8_iff.1 h
    dsimp only
    unfold extractBytes extractText
    rw [Utf8.decode_encode]
    cases Language.ofTag? c.languages c.tag <;> rfl

/-- The units of a tree without error are numbered. -/
theorem result_of_tree (h : c.IsValid) {language : Language} {parse : List UInt8 → Parsed}
    (hlanguage : Language.ofTag? c.languages c.tag = some language)
    (hparse : c.grammars language.grammar = .ok parse)
    (hclean : (parse c.bytes).hasError = false) :
    c.result = if c.bytes.isEmpty then .ok [] else
      number ⟨c.settings.scheme, c.filePath, c.tag, c.bytes⟩ 0 []
        (((parse c.bytes).root.unitPlaces language).map (·.found language c.bytes)) := by
  rw [result_of_isValid h, ← walk_eq_unitPlaces]
  unfold extractText
  rw [hlanguage]
  dsimp only
  rw [hparse]
  dsimp only
  rw [hclean, Bool.false_and]
  rfl

/-- Bytes that are not valid are refused before a tree is made. -/
theorem result_of_not_isValidUTF8 {bytes : List UInt8} (hc : c.content = .inr bytes)
    (hbytes : ¬ bytes.toByteArray.IsValidUTF8) :
    ∃ e, ∀ grammars, { c with grammars := grammars }.result =
      .error (if (Language.ofTag? c.languages c.tag).isSome then .encoding c.filePath e
        else .unsupported (Text.quoted c.tag)) := by
  obtain ⟨e, he⟩ := Utf8.exists_decode_error hbytes
  refine ⟨e, fun grammars => ?_⟩
  unfold result
  dsimp only
  rw [hc]
  dsimp only
  unfold extractBytes
  rw [he]
  cases Language.ofTag? c.languages c.tag <;> rfl

end Call

/-! ## Units and their spans -/

/-- A unit whose text has the bytes of its span as its UTF-8. -/
def SpansExactly (source : List UInt8) (u : CodeUnit) : Prop :=
  ∃ code, u.codeText = Text.ofString code ∧
    Utf8.encode code = (source.take u.span.endByte.toNat).drop u.span.startByte.toNat

theorem IsUnitOf.spansExactly {source : List UInt8} {f : Found} {u : CodeUnit}
    (h : IsUnitOf source f u) (hspan : f.node.span.OnBoundaries source) : SpansExactly source u := by
  obtain ⟨code, hcode, hdecode⟩ := h.codeText
  refine ⟨code, hcode, ?_⟩
  rw [h.span, ← hspan.byteSlice_eq]
  exact Utf8.decode_eq_ok_iff.1 hdecode

/-- Found at spans on boundaries, units are made with the bytes of their spans. -/
theorem spansExactly_number {o : Origin} {found : List Found} {units : List CodeUnit}
    (h : ∀ f ∈ found, f.node.span.OnBoundaries o.source) (hunits : number o 0 [] found = .ok units) :
    List.Forall₂ (fun f u => u.span = f.node.span ∧ SpansExactly o.source u) found units := by
  obtain ⟨hall, -⟩ := forall₂_number hunits
  exact ((List.forall₂_and_left found units).2 ⟨h, hall⟩).imp
    fun f u ⟨hspan, hu⟩ => ⟨hu.span, hu.spansExactly hspan⟩

/-- What the units of a call share. -/
def Call.origin (c : Call) : Origin := ⟨c.settings.scheme, c.filePath, c.tag, c.bytes⟩

/-- Let a valid source have a tree without error whose spans lie on boundaries. Extraction makes the
units of the tree, each with the bytes of its node as its text, unless one of them cannot be named;
there is no other error. Bytes that are not valid are refused before a tree is made. -/
theorem units_span_exactly (c : Call) :
    (c.IsValid → ∀ language parse, Language.ofTag? c.languages c.tag = some language →
      c.grammars language.grammar = .ok parse → (parse c.bytes).hasError = false →
      (∀ node ∈ (parse c.bytes).root.preorder, node.span.OnBoundaries c.bytes) →
      ((∃ units, c.result = .ok units) ↔ c.bytes = [] ∨
        ∀ p ∈ (parse c.bytes).root.unitPlaces language,
          c.origin.Names (p.found language c.bytes)) ∧
      (∀ units, c.result = .ok units → (c.bytes = [] → units = []) ∧
        (c.bytes ≠ [] → List.Forall₂
          (fun p u => u.span = p.node.span ∧ SpansExactly c.bytes u)
          ((parse c.bytes).root.unitPlaces language) units)) ∧
      ∀ x, c.result = .error x → ∃ e, x = .encode e) ∧
    ∀ bytes, c.content = .inr bytes → ¬ bytes.toByteArray.IsValidUTF8 →
      ∃ e, ∀ grammars, { c with grammars := grammars }.result =
        .error (if (Language.ofTag? c.languages c.tag).isSome then .encoding c.filePath e
          else .unsupported (Text.quoted c.tag)) := by
  refine ⟨fun hvalid language parse hlanguage hparse hclean hspans => ?_,
    fun bytes => Call.result_of_not_isValidUTF8⟩
  have hresult := Call.result_of_tree hvalid hlanguage hparse hclean
  by_cases hempty : c.bytes = []
  · rw [if_pos (by simp [hempty])] at hresult
    refine ⟨⟨fun _ => .inl hempty, fun _ => ⟨[], hresult⟩⟩, fun units hunits => ?_, fun x hx => ?_⟩
    · rw [hresult] at hunits
      cases hunits
      exact ⟨fun _ => rfl, fun hne => absurd hempty hne⟩
    · rw [hresult] at hx
      cases hx
  · rw [if_neg (by simp [hempty])] at hresult
    have hfound : ∀ f ∈ ((parse c.bytes).root.unitPlaces language).map (·.found language c.bytes),
        f.node.span.OnBoundaries c.bytes := by
      intro f hf
      obtain ⟨p, hp, rfl⟩ := List.mem_map.1 hf
      exact hspans p.node (ParseTree.node_mem_of_mem_unitPlaces hp)
    have hnames : (∀ p ∈ (parse c.bytes).root.unitPlaces language,
        c.origin.Names (p.found language c.bytes)) ↔
          ∀ f ∈ ((parse c.bytes).root.unitPlaces language).map (·.found language c.bytes),
            c.origin.Names f := List.forall_mem_map.symm
    rw [hnames]
    rcases @number_of_decode c.origin _ 0 [] fun f hf => (hfound f hf).exists_decode with
      ⟨hall, units, hunits⟩ | ⟨hall, e, he⟩
    · have hunits := hresult.trans hunits
      refine ⟨⟨fun _ => .inr hall, fun _ => ⟨units, hunits⟩⟩, fun us hus => ?_, fun x hx => ?_⟩
      · refine ⟨fun h => absurd h hempty, fun _ => ?_⟩
        exact List.forall₂_map_left_iff.1 (spansExactly_number hfound (hresult.symm.trans hus))
      · rw [hunits] at hx
        cases hx
    · have he := hresult.trans he
      refine ⟨⟨fun ⟨units, hunits⟩ => ?_, fun h => absurd (h.resolve_left hempty) hall⟩,
        fun units hunits => ?_, fun x hx => ?_⟩
      · rw [he] at hunits
        cases hunits
      · rw [he] at hunits
        cases hunits
      · rw [he] at hx
        cases hx
        exact ⟨e, rfl⟩

/-- By structure, the units of a file are named iff its path has UTF-8, if the words of the language
have. -/
theorem Call.names_iff {c : Call} {language : Language}
    (h : language.fallbackToken.encodeError? = none) (p : Place) :
    c.origin.Names (p.found language c.bytes) ↔
      (c.settings.scheme = .structural → c.filePath.encodeError? = none) :=
  forall_congr' fun _ => and_iff_left (p.encodeError?_symbolPath h c.bytes)

namespace Sample

/-- Two functions, with characters of one to four bytes before, in and between them. -/
def accentedTree : ParseTree :=
  .node "module" none ⟨0, 39, 0, 3⟩ [
    .node "function_definition" none ⟨0, 14, 0, 0⟩ [
      .node "identifier" (some "name") ⟨4, 6, 0, 0⟩ []],
    .node "assignment" none ⟨15, 23, 1, 1⟩ [],
    .node "function_definition" none ⟨24, 38, 2, 2⟩ [
      .node "identifier" (some "name") ⟨28, 29, 2, 2⟩ []]]

def accented : Call where
  languages := Language.catalog
  grammars := fun _ => .ok fun _ => ⟨accentedTree, false⟩
  settings := ⟨.structural, true⟩
  content := .inl "def é(): 'λ'\n𝄞 = 1\ndef f(): '€'\n"
  tag := "python"
  filePath := "a.py"

/-- A quoted surrogate. -/
def surrogate : Call := { accented with content := .inr [0x27, 0xed, 0xa0, 0x80, 0x27] }

/-- The same file under a name that begins with the byte `0xff`. -/
def stray : Call :=
  { accented with filePath := Text.ofList (.surrogate 0x4ff :: (".py" : Text).toList) }

end Sample

/-- The functions have their texts, the quoted surrogate has an error. -/
theorem accented_spans_exact :
    (∃ units language, Sample.accented.result = .ok units ∧
      units.map (·.codeText) = (["def é(): 'λ'", "def f(): '€'"] : List Text) ∧
      List.Forall₂ (fun p u => u.span = p.node.span ∧ SpansExactly Sample.accented.bytes u)
        (Sample.accentedTree.unitPlaces language) units) ∧
    ∃ e, ∀ grammars, { Sample.surrogate with grammars := grammars }.result =
      .error (.encoding "a.py" e) := by
  have hspans : ∀ node ∈ Sample.accentedTree.preorder,
      node.span.OnBoundaries Sample.accented.bytes := by decide +kernel
  have htexts : Sample.accented.result.toOption.map (·.map (·.codeText)) =
      some (["def é(): 'λ'", "def f(): '€'"] : List Text) := by decide +kernel
  obtain ⟨hok, hexact, -⟩ :=
    (units_span_exactly Sample.accented).1 (Text.encodeError?_ofString _) _ _ rfl rfl rfl hspans
  obtain ⟨units, hresult⟩ := hok.2 (.inr fun p _ => (Call.names_iff (by decide) p).2 fun _ => by
    decide)
  rw [hresult] at htexts
  exact ⟨⟨units, _, hresult, Option.some.inj htexts, (hexact units hresult).2 (by decide)⟩,
    (units_span_exactly Sample.surrogate).2 _ rfl (by decide)⟩

/-- By structure, a file whose name begins with a byte that is no character has no units, though its
source is valid, its tree without error and its spans on boundaries. -/
theorem stray_path_refused :
    Sample.stray.IsValid ∧ (∀ node ∈ Sample.accentedTree.preorder,
      node.span.OnBoundaries Sample.stray.bytes) ∧
    Sample.stray.grammars = (fun _ => .ok fun _ => ⟨Sample.accentedTree, false⟩) ∧
    Sample.stray.result = .error (.encode ⟨0x4ff, 0, 1⟩) :=
  ⟨Text.encodeError?_ofString _, by decide +kernel, rfl, by decide +kernel⟩

end Extract

end CodeAtlas
