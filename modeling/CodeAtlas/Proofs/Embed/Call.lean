import CodeAtlas.Embed.Embedder
import CodeAtlas.Proofs.Work

/-!
# Calls of a model embedder

A call of a model embedder loads the model if need be, cuts the texts and has them encoded. A load
or an encoding that fails is told by an error of the embedder. A text that cannot be cut is not
(`Uncuttable`): the call then fails as the cut does. So a call keeps the promise that it returns a
vector for each text, or fails by an error of its own, except on such a text:

    Keeps .. ((embed t settings model texts).run s).1 ↔
      ¬(Ready model s ∧ ∃ text ∈ texts, Uncuttable t settings text)           (keeps_promise_iff)

`run_embed_of_ready` and its neighbours say what a call answers and what state it leaves.
-/

namespace CodeAtlas

namespace ModelEmbedder

variable {τ : Type} {t : Tokenizer τ} {settings : ModelSettings} {model : Model}
  {s : ModelState} {texts inputs : List Text} {text : Text}

/-! ## Texts that cannot be cut -/

/-- How a text cannot be cut: it has to be cut or measured, but holds surrogates, or it is long and
the tokenizer refuses it. -/
inductive CutFails (t : Tokenizer τ) (settings : ModelSettings) (text : Text) :
    EmbedFailure → Prop
  | surrogate {e : EncodeError} (hlimit : 0 < settings.maxInputTokens)
    (htext : text.asString = .error e) : CutFails t settings text (.encode e)
  | refused {chars message : String} (hlimit : 0 < settings.maxInputTokens)
    (htext : text.asString = .ok chars)
    (hlong : settings.maxInputTokens < (Utf8.encode chars).length)
    (hrefused : t.encode chars = .error message) : CutFails t settings text (.stray message)

def Uncuttable (t : Tokenizer τ) (settings : ModelSettings) (text : Text) : Prop :=
  ∃ f, CutFails t settings text f

theorem truncate_error_iff {chars message : String} {limit : Int} :
    t.truncate chars limit = .error message ↔
      0 < limit ∧ limit < (Utf8.encode chars).length ∧ t.encode chars = .error message := by
  unfold Tokenizer.truncate
  by_cases hkept : limit ≤ 0 ∨ ((Utf8.encode chars).length : Int) ≤ limit
  · rw [if_pos (by simpa using hkept)]
    exact ⟨nofun, fun ⟨hpos, hlong, _⟩ => by omega⟩
  · rw [if_neg (by simpa using hkept)]
    cases hencode : t.encode chars with
    | error m =>
      constructor
      · rintro ⟨⟩
        exact ⟨by omega, by omega, rfl⟩
      · rintro ⟨-, -, ⟨⟩⟩
        rfl
    | ok tokens =>
      refine ⟨fun h => ?_, fun ⟨_, _, h⟩ => nomatch h⟩
      change (if (tokens.length : Int) ≤ limit then Except.ok chars
        else Except.ok (t.decode (tokens.take limit.toNat))) = .error message at h
      split at h <;> cases h

theorem cut_error_iff {f : EmbedFailure} :
    cut t settings text = .error f ↔ CutFails t settings text f := by
  unfold cut
  by_cases hlimit : settings.maxInputTokens ≤ 0
  · rw [t.truncatePoints_of_nonpos text hlimit]
    refine ⟨nofun, fun h => ?_⟩
    cases h <;> omega
  · rw [t.truncatePoints_of_pos text (Int.not_le.1 hlimit)]
    cases htext : text.asString with
    | error e =>
      constructor
      · rintro ⟨⟩
        exact .surrogate (Int.not_le.1 hlimit) htext
      · rintro (⟨-, h⟩ | ⟨-, h, -, -⟩)
        · cases htext.symm.trans h
          rfl
        · cases htext.symm.trans h
    | ok chars =>
      dsimp only
      constructor
      · intro h
        cases hcut : t.truncate chars settings.maxInputTokens with
        | ok kept =>
          rw [hcut] at h
          cases h
        | error message =>
          rw [hcut] at h
          cases h
          obtain ⟨hpos, hlong, hrefused⟩ := truncate_error_iff.1 hcut
          exact .refused hpos htext hlong hrefused
      · rintro (⟨-, h⟩ | ⟨hpos, h, hlong, hrefused⟩)
        · cases htext.symm.trans h
        · cases htext.symm.trans h
          rw [truncate_error_iff.2 ⟨hpos, hlong, hrefused⟩]
          rfl

/-- No failure to cut is an error of the embedder. -/
theorem CutFails.ne_service {f : EmbedFailure} (h : CutFails t settings text f) (e : EmbedError) :
    f ≠ .service e := by
  rintro rfl
  cases h

theorem not_uncuttable_of_mapM_ok (h : texts.mapM (cut t settings) = .ok inputs) :
    ¬∃ text ∈ texts, Uncuttable t settings text := by
  rintro ⟨text, htext, f, hf⟩
  obtain ⟨input, -, hok⟩ := (of_mapM_ok h).1 text htext
  cases hok.symm.trans (cut_error_iff.2 hf)

/-- Of tokens of three bytes a text is refused for the mark in it. -/
theorem uncuttable_blocks_iff :
    Uncuttable Tokenizer.blocks settings text ↔ 0 < settings.maxInputTokens ∧
      ((∃ e, text.asString = .error e) ∨ ∃ chars, text.asString = .ok chars ∧
        settings.maxInputTokens < (Utf8.encode chars).length ∧
        Text.occurs Tokenizer.reservedMark chars = true) := by
  have hrefused : ∀ chars, (∃ message, Tokenizer.blocks.encode chars = .error message) ↔
      Text.occurs Tokenizer.reservedMark chars = true := by
    intro chars
    unfold Tokenizer.blocks
    dsimp only
    split
    · exact iff_of_true ⟨_, rfl⟩ ‹_›
    · exact iff_of_false (fun ⟨_, h⟩ => nomatch h) ‹_›
  constructor
  · rintro ⟨f, ⟨hpos, htext⟩ | ⟨hpos, htext, hlong, hmessage⟩⟩
    · exact ⟨hpos, .inl ⟨_, htext⟩⟩
    · exact ⟨hpos, .inr ⟨_, htext, hlong, (hrefused _).1 ⟨_, hmessage⟩⟩⟩
  · rintro ⟨hpos, ⟨e, htext⟩ | ⟨chars, htext, hlong, hoccurs⟩⟩
    · exact ⟨_, .surrogate hpos htext⟩
    · obtain ⟨message, hmessage⟩ := (hrefused chars).2 hoccurs
      exact ⟨_, .refused hpos htext hlong hmessage⟩

/-! ## What a call does -/

/-- Whether a call has a model: it is loaded, or loads now. -/
def Ready (model : Model) (s : ModelState) : Prop := s.loaded = true ∨ model.load = .ok ()

/-- The state once the model is loaded. -/
def afterLoad (s : ModelState) : ModelState :=
  if s.loaded then s else { s with loaded := true, loads := s.loads + 1 }

@[simp] theorem loaded_afterLoad (s : ModelState) : (afterLoad s).loaded = true := by
  unfold afterLoad
  split
  · assumption
  · rfl

@[simp] theorem loads_afterLoad (s : ModelState) :
    (afterLoad s).loads = if s.loaded then s.loads else s.loads + 1 := by
  unfold afterLoad
  split <;> rfl

@[simp] theorem inputs_afterLoad (s : ModelState) : (afterLoad s).inputs = s.inputs := by
  unfold afterLoad
  split <;> rfl

theorem run_embed_nil : (embed t settings model []).run s = (.ok [], s) := rfl

theorem run_embed_of_not_ready (t : Tokenizer τ) (settings : ModelSettings) (hne : texts ≠ [])
    (h : ¬Ready model s) :
    ∃ message, model.load = .error message ∧ (embed t settings model texts).run s =
      (.error (.service (.load settings.name.quoted message)), { s with loads := s.loads + 1 }) := by
  obtain ⟨hloaded, hload⟩ := not_or.1 h
  cases hm : model.load with
  | ok _ => exact absurd hm hload
  | error message =>
    refine ⟨message, rfl, ?_⟩
    unfold embed ensureLoaded
    rw [if_neg (by simpa using hne)]
    simp only [StateT.run_bind, StateT.run_get, pure_bind, if_neg hloaded, hm]
    rfl

/-- With a model a call is about cutting and encoding. -/
theorem run_embed_of_ready (hne : texts ≠ []) (h : Ready model s) :
    (embed t settings model texts).run s =
      match texts.mapM (cut t settings) with
      | .error f => (.error f, afterLoad s)
      | .ok inputs =>
        ((model.encode inputs).mapError fun message => .service (.encode texts.length message),
          { afterLoad s with inputs := (afterLoad s).inputs ++ [inputs] }) := by
  have hensure : (ensureLoaded settings model).run s = (.ok (), afterLoad s) := by
    unfold ensureLoaded afterLoad
    by_cases hloaded : s.loaded = true
    · simp only [StateT.run_bind, StateT.run_get, pure_bind, if_pos hloaded]
      rfl
    · simp only [StateT.run_bind, StateT.run_get, pure_bind, if_neg hloaded,
        h.resolve_left hloaded]
      rfl
  unfold embed
  rw [if_neg (by simpa using hne), StateT.run_bind, hensure]
  cases texts.mapM (cut t settings) with
  | error f => rfl
  | ok inputs =>
    dsimp only
    cases model.encode inputs <;> rfl

/-! ## What a call promises -/

/-- A model that gives one row for each text. -/
def GivesRows (model : Model) : Prop :=
  ∀ inputs rows, model.encode inputs = .ok rows → rows.length = inputs.length

/-- A model that loads, if it has to, and encodes without fault. -/
def Works (model : Model) (s : ModelState) : Prop :=
  Ready model s ∧ ∀ inputs, ∃ rows, model.encode inputs = .ok rows

/-- A vector for each text, in order: those that the model gives for the texts as they are cut. -/
def AreVectors (t : Tokenizer τ) (settings : ModelSettings) (model : Model)
    (texts : List Text) (vectors : List Embedding) : Prop :=
  vectors.length = texts.length ∧
    (texts ≠ [] → ∃ inputs, texts.map (cut t settings) = inputs.map .ok ∧
      model.encode inputs = .ok vectors)

/-- What a call promises: it gives what it should or fails by an error of the embedder, and it
gives something if the model works. -/
structure Keeps {α : Type} (works : Prop) (good : α → Prop) (answer : Except EmbedFailure α) :
    Prop where
  own : (∃ a, answer = .ok a ∧ good a) ∨ ∃ e, answer = .error (.service e)
  returns : works → ∃ a, answer = .ok a

namespace Keeps

variable {α : Type} {works : Prop} {good : α → Prop}

@[simp] theorem ok_iff {a : α} : Keeps works good (.ok a) ↔ good a := by
  constructor
  · intro h
    rcases h.own with ⟨b, hb, hgood⟩ | ⟨e, he⟩
    · cases hb
      exact hgood
    · cases he
  · exact fun hgood => ⟨.inl ⟨a, rfl, hgood⟩, fun _ => ⟨a, rfl⟩⟩

@[simp] theorem error_iff {f : EmbedFailure} :
    Keeps works good (.error f) ↔ (∃ e, f = .service e) ∧ ¬works := by
  constructor
  · intro h
    refine ⟨?_, fun hworks => ?_⟩
    · rcases h.own with ⟨b, hb, -⟩ | ⟨e, he⟩
      · cases hb
      · cases he
        exact ⟨e, rfl⟩
    · obtain ⟨a, ha⟩ := h.returns hworks
      cases ha
  · rintro ⟨⟨e, rfl⟩, hfault⟩
    exact ⟨.inr ⟨e, rfl⟩, fun hworks => absurd hworks hfault⟩

end Keeps

/-- The three ways in which a call ends. -/
inductive Ends (t : Tokenizer τ) (settings : ModelSettings) (model : Model) (s : ModelState)
    (texts : List Text) : Except EmbedFailure (List Embedding) → Prop
  | vectors {vectors : List Embedding} (hvectors : AreVectors t settings model texts vectors)
    (hcut : ¬∃ text ∈ texts, Uncuttable t settings text) : Ends t settings model s texts (.ok vectors)
  | service {e : EmbedError} (hfault : ¬Works model s)
    (hcut : ¬(Ready model s ∧ ∃ text ∈ texts, Uncuttable t settings text)) :
    Ends t settings model s texts (.error (.service e))
  | uncut {f : EmbedFailure} (hready : Ready model s) {text : Text} (hmem : text ∈ texts)
    (hfails : CutFails t settings text f) : Ends t settings model s texts (.error f)

theorem embed_ends (hrows : GivesRows model) :
    Ends t settings model s texts ((embed t settings model texts).run s).1 := by
  by_cases hne : texts = []
  · subst hne
    rw [run_embed_nil]
    exact .vectors ⟨rfl, fun h => absurd rfl h⟩ (by simp)
  by_cases hready : Ready model s
  · rw [run_embed_of_ready hne hready]
    cases hcut : texts.mapM (cut t settings) with
    | error f =>
      obtain ⟨text, hmem, hfails⟩ := exists_of_mapM_error hcut
      exact .uncut hready hmem (cut_error_iff.1 hfails)
    | ok inputs =>
      have hcuttable := not_uncuttable_of_mapM_ok hcut
      dsimp only
      cases hencode : model.encode inputs with
      | error message =>
        refine .service (fun hworks => ?_) fun h => hcuttable h.2
        obtain ⟨rows, hrows⟩ := hworks.2 inputs
        cases hencode.symm.trans hrows
      | ok rows =>
        refine .vectors ⟨?_, fun _ => ⟨inputs, map_eq_of_mapM_ok hcut, hencode⟩⟩ hcuttable
        rw [hrows inputs rows hencode]
        exact (forall₂_of_mapM_ok hcut).length_eq.symm
  · obtain ⟨message, -, hrun⟩ :=
      run_embed_of_not_ready t settings hne hready
    rw [hrun]
    exact .service (fun h => hready h.1) fun h => hready h.1

theorem Ends.keeps_iff {answer : Except EmbedFailure (List Embedding)}
    (h : Ends t settings model s texts answer) :
    Keeps (Works model s) (AreVectors t settings model texts) answer ↔
      ¬(Ready model s ∧ ∃ text ∈ texts, Uncuttable t settings text) := by
  cases h with
  | vectors hvectors hcut => exact iff_of_true (Keeps.ok_iff.2 hvectors) fun h => hcut h.2
  | service hfault hcut => exact iff_of_true (Keeps.error_iff.2 ⟨⟨_, rfl⟩, hfault⟩) hcut
  | uncut hready hmem hfails =>
    refine iff_of_false (fun hkeeps => ?_) fun h => h ⟨hready, _, hmem, _, hfails⟩
    obtain ⟨⟨e, he⟩, -⟩ := Keeps.error_iff.1 hkeeps
    exact hfails.ne_service e he

/-! ## A single text -/

/-- The vector of a single text is the first one of the call for it. -/
theorem run_embedOne (e : Embedder ModelState) :
    ((e.embedOne text).run s).1 =
      match ((e.embed [text]).run s).1 with
      | .error f => .error f
      | .ok [] => .error (.stray Embedder.missingVector)
      | .ok (v :: _) => .ok v := by
  unfold Embedder.embedOne
  rw [StateT.run_bind]
  rcases (e.embed [text]).run s with ⟨f | (_ | ⟨v, vs⟩), s'⟩ <;> rfl

/-- A model that gives one row for each text gives the one that is taken. -/
theorem embedOne_keeps_iff (hrows : GivesRows model) :
    Keeps (Works model s) (fun v => AreVectors t settings model [text] [v])
        (((embedder t settings model).embedOne text).run s).1 ↔
      Keeps (Works model s) (AreVectors t settings model [text])
        ((embed t settings model [text]).run s).1 := by
  have hends : Ends t settings model s [text] (((embedder t settings model).embed [text]).run s).1 :=
    embed_ends hrows
  rw [run_embedOne]
  change _ ↔ Keeps _ _ (((embedder t settings model).embed [text]).run s).1
  generalize (((embedder t settings model).embed [text]).run s).1 = answer at hends ⊢
  cases hends with
  | vectors hvectors =>
    obtain ⟨v, rfl⟩ := List.length_eq_one_iff.1 hvectors.1
    rw [Keeps.ok_iff, Keeps.ok_iff]
  | service => rw [Keeps.error_iff, Keeps.error_iff]
  | uncut => rw [Keeps.error_iff, Keeps.error_iff]

/-- **The embedder keeps its promise except on texts that cannot be cut.** Of one text or many: as
long as there is a model, and only then, a text that has to be cut and cannot be ends the call by a
failure of another kind. -/
theorem keeps_promise_iff (t : Tokenizer τ) (settings : ModelSettings) {model : Model}
    (hrows : GivesRows model) (s : ModelState) :
    (∀ texts, Keeps (Works model s) (AreVectors t settings model texts)
        ((embed t settings model texts).run s).1 ↔
      ¬(Ready model s ∧ ∃ text ∈ texts, Uncuttable t settings text)) ∧
    ∀ text, Keeps (Works model s) (fun v => AreVectors t settings model [text] [v])
        (((embedder t settings model).embedOne text).run s).1 ↔
      ¬(Ready model s ∧ Uncuttable t settings text) := by
  refine ⟨fun texts => (embed_ends hrows).keeps_iff, fun text => ?_⟩
  rw [embedOne_keeps_iff hrows, (embed_ends hrows).keeps_iff, List.exists_mem_cons_iff]
  simp

/-- A model without faults. -/
def steady : Model := ⟨.ok (), fun inputs => .ok (inputs.map fun _ => [1])⟩

theorem steady_givesRows : GivesRows steady := by
  rintro inputs rows ⟨⟩
  exact List.length_map _

theorem long_text_keeps_promise :
    Keeps (Works steady unloaded)
      (AreVectors Tokenizer.blocks ⟨.text "m", 2⟩ steady [Text.ofString "seven b"])
      ((embed Tokenizer.blocks ⟨.text "m", 2⟩ steady [Text.ofString "seven b"]).run unloaded).1 := by
  refine ((keeps_promise_iff Tokenizer.blocks ⟨.text "m", 2⟩ steady_givesRows unloaded).1 _).2 ?_
  rintro ⟨-, text, hmem, hcut⟩
  obtain rfl := List.mem_singleton.1 hmem
  obtain ⟨-, ⟨e, he⟩ | ⟨chars, hchars, -, hoccurs⟩⟩ := uncuttable_blocks_iff.1 hcut
  · rw [Text.asString_ofString] at he
    cases he
  · rw [Text.asString_ofString] at hchars
    cases hchars
    revert hoccurs
    decide

/-- A model without faults does not help a text with the mark. -/
theorem mark_breaks_promise :
    Works steady unloaded ∧
      ((embed Tokenizer.blocks ⟨.text "m", 3⟩ steady
        [Text.ofString Tokenizer.reservedMark]).run unloaded).1 =
          .error (.stray "disallowed special token") ∧
      ¬Keeps (Works steady unloaded)
        (AreVectors Tokenizer.blocks ⟨.text "m", 3⟩ steady [Text.ofString Tokenizer.reservedMark])
        ((embed Tokenizer.blocks ⟨.text "m", 3⟩ steady
          [Text.ofString Tokenizer.reservedMark]).run unloaded).1 := by
  have hanswer : ((embed Tokenizer.blocks ⟨.text "m", 3⟩ steady
      [Text.ofString Tokenizer.reservedMark]).run unloaded).1 =
        .error (.stray "disallowed special token") := by rfl
  refine ⟨⟨.inr rfl, fun inputs => ⟨_, rfl⟩⟩, hanswer, ?_⟩
  rw [hanswer, Keeps.error_iff]
  rintro ⟨⟨e, he⟩, -⟩
  cases he

end ModelEmbedder

end CodeAtlas
