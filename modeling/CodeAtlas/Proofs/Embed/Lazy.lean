import CodeAtlas.Proofs.Embed.Call

/-!
# Calls of a model embedder in turn

Calls for many texts or for a single one follow each other, and loading and encoding may fail on
each of them. What one call can do is said by `Does`, with one case for each way. It follows that a
call finds the embedder loaded where an earlier one has loaded it, and nowhere else:

    (r.state i).loaded = true ↔ ∃ j < i, r.Loads j                            (Run.loaded_iff)

so that a run loads its model when it first can and no second time (`runs_load_lazily`).
-/

namespace CodeAtlas

namespace ModelEmbedder

variable {τ : Type} {t : Tokenizer τ} {settings : ModelSettings} {s s' : ModelState}

/-! ## One call -/

/-- What is asked of an embedder: the vectors of texts, or the one of a single text. -/
inductive Asked
  | many (texts : List Text)
  | one (text : Text)

/-- A call, and what the model does on it. -/
structure Call where
  asked : Asked
  model : Model

namespace Call

def texts (c : Call) : List Text :=
  match c.asked with
  | .many texts => texts
  | .one text => [text]

/-- The vectors that a call answers with. -/
def run (t : Tokenizer τ) (settings : ModelSettings) (c : Call) :
    StateM ModelState (Except EmbedFailure (List Embedding)) :=
  match c.asked with
  | .many texts => (embedder t settings c.model).embed texts
  | .one text => do
    match ← (embedder t settings c.model).embedOne text with
    | .error f => return .error f
    | .ok v => return .ok [v]

/-- What a call does: its answer and the state that it leaves. -/
inductive Does (t : Tokenizer τ) (settings : ModelSettings) (c : Call) (s : ModelState) :
    Except EmbedFailure (List Embedding) → ModelState → Prop
  | nothing (hnil : c.texts = []) : Does t settings c s (.ok []) s
  | unloaded {message : Text} (hne : c.texts ≠ []) (hloaded : s.loaded = false)
      (hload : c.model.load = .error message) :
      Does t settings c s (.error (.service (.load settings.name.quoted message)))
        { s with loads := s.loads + 1 }
  | uncut {answer : Except EmbedFailure (List Embedding)} (hne : c.texts ≠ [])
      (hready : Ready c.model s) {text : Text} (hmem : text ∈ c.texts) {f : EmbedFailure}
      (hcut : cut t settings text = .error f) : Does t settings c s answer (afterLoad s)
  | given {answer : Except EmbedFailure (List Embedding)} (hne : c.texts ≠ [])
      (hready : Ready c.model s) {inputs : List Text}
      (hcut : c.texts.map (cut t settings) = inputs.map .ok)
      (hfails : ∀ message, c.model.encode inputs = .error message →
        answer = .error (.service (.encode c.texts.length message))) :
      Does t settings c s answer
        { afterLoad s with inputs := (afterLoad s).inputs ++ [inputs] }

theorem does_many (t : Tokenizer τ) (settings : ModelSettings) (texts : List Text)
    (model : Model) (s : ModelState) :
    Does t settings ⟨.many texts, model⟩ s (((embedder t settings model).embed texts).run s).1
      (((embedder t settings model).embed texts).run s).2 := by
  change Does t settings _ s ((embed t settings model texts).run s).1
    ((embed t settings model texts).run s).2
  by_cases hne : texts = []
  · subst hne
    exact .nothing rfl
  by_cases hready : Ready model s
  · rw [run_embed_of_ready hne hready]
    cases hcut : texts.mapM (cut t settings) with
    | error f =>
      obtain ⟨text, hmem, htext⟩ := exists_of_mapM_error hcut
      exact .uncut (c := ⟨.many texts, model⟩) hne hready hmem htext
    | ok inputs =>
      refine .given (c := ⟨.many texts, model⟩) hne hready (map_eq_of_mapM_ok hcut)
        fun message hmessage => ?_
      change (model.encode inputs).mapError _ = _
      rw [hmessage]
      rfl
  · obtain ⟨message, hload, hrun⟩ := run_embed_of_not_ready t settings hne hready
    rw [hrun]
    exact .unloaded (c := ⟨.many texts, model⟩) hne (Bool.eq_false_iff.2 (not_or.1 hready).1) hload

/-- A call for a single text takes the first vector of the call for that text only. -/
theorem run_one (text : Text) (model : Model) (s : ModelState) :
    (run t settings ⟨.one text, model⟩).run s =
      (match (((embedder t settings model).embed [text]).run s).1 with
        | .error f => .error f
        | .ok [] => .error (.stray Embedder.missingVector)
        | .ok (v :: _) => .ok [v],
        (((embedder t settings model).embed [text]).run s).2) := by
  unfold run Embedder.embedOne
  dsimp only
  rw [StateT.run_bind, StateT.run_bind]
  rcases ((embedder t settings model).embed [text]).run s with ⟨f | (_ | ⟨v, vs⟩), s'⟩ <;> rfl

theorem does (c : Call) (s : ModelState) :
    Does t settings c s ((c.run t settings).run s).1 ((c.run t settings).run s).2 := by
  obtain ⟨texts | text, model⟩ := c
  · exact does_many t settings texts model s
  · have hmany := does_many t settings [text] model s
    rw [run_one]
    generalize (((embedder t settings model).embed [text]).run s).1 = answer at hmany ⊢
    generalize (((embedder t settings model).embed [text]).run s).2 = s' at hmany ⊢
    cases hmany with
    | nothing hnil => cases hnil
    | unloaded hne hloaded hload => exact .unloaded (c := ⟨.one text, model⟩) hne hloaded hload
    | uncut hne hready hmem hcut => exact .uncut (c := ⟨.one text, model⟩) hne hready hmem hcut
    | given hne hready hcut hfails =>
      refine .given (c := ⟨.one text, model⟩) hne hready hcut fun message hmessage => ?_
      rw [hfails message hmessage]
      rfl

end Call

/-! ## Calls in turn -/

/-- Calls of one embedder, one after the other. -/
structure Run (τ : Type) where
  tokenizer : Tokenizer τ
  settings : ModelSettings
  calls : List Call

namespace Run

variable {r : Run τ} {i j : Nat} {c : Call}

/-- The state before call `i`. -/
def state (r : Run τ) (i : Nat) : ModelState :=
  (r.calls.take i).foldl (fun s c => ((c.run r.tokenizer r.settings).run s).2) unloaded

/-- The answer of call `i`. -/
def answer? (r : Run τ) (i : Nat) : Option (Except EmbedFailure (List Embedding)) :=
  r.calls[i]?.map fun c => ((c.run r.tokenizer r.settings).run (r.state i)).1

/-- Call `i` tries to load the model. -/
def Tries (r : Run τ) (i : Nat) : Prop := (r.state i).loads < (r.state (i + 1)).loads

def Loads (r : Run τ) (i : Nat) : Prop :=
  r.Tries i ∧ ∃ c, r.calls[i]? = some c ∧ c.model.load = .ok ()

def FailsToLoad (r : Run τ) (i : Nat) : Prop :=
  r.Tries i ∧ ∃ c message, r.calls[i]? = some c ∧ c.model.load = .error message

theorem state_succ_of_none (hc : r.calls[i]? = none) : r.state (i + 1) = r.state i := by
  unfold state
  rw [List.take_add_one, hc, Option.toList_none, List.append_nil]

theorem state_succ (hc : r.calls[i]? = some c) :
    r.state (i + 1) = ((c.run r.tokenizer r.settings).run (r.state i)).2 := by
  unfold state
  rw [List.take_add_one, hc, Option.toList_some, List.foldl_append]
  rfl

theorem exists_does (hc : r.calls[i]? = some c) :
    ∃ answer, r.answer? i = some answer ∧
      c.Does r.tokenizer r.settings (r.state i) answer (r.state (i + 1)) := by
  refine ⟨_, by rw [answer?, hc]; rfl, ?_⟩
  rw [state_succ hc]
  exact c.does (r.state i)

/-- A call with texts tries to load the model if it finds none. -/
theorem tries_iff (hc : r.calls[i]? = some c) :
    r.Tries i ↔ c.texts ≠ [] ∧ (r.state i).loaded = false := by
  obtain ⟨answer, -, hdoes⟩ := exists_does hc
  unfold Tries
  generalize r.state (i + 1) = after at hdoes ⊢
  cases hdoes with
  | nothing hnil => simp [hnil]
  | unloaded hne hloaded => simp [hne, hloaded]
  | uncut hne | given hne =>
    rw [loads_afterLoad]
    cases (r.state i).loaded <;> simp [hne]

theorem loads_iff (hc : r.calls[i]? = some c) :
    r.Loads i ↔ r.Tries i ∧ c.model.load = .ok () := by
  simp [Loads, hc]

theorem failsToLoad_iff (hc : r.calls[i]? = some c) :
    r.FailsToLoad i ↔ r.Tries i ∧ ∃ message, c.model.load = .error message := by
  simp [FailsToLoad, hc]

/-- After a call the model is loaded if it was before or if the call has loaded it. -/
theorem loaded_succ_iff (hc : r.calls[i]? = some c) :
    (r.state (i + 1)).loaded = true ↔ (r.state i).loaded = true ∨ r.Loads i := by
  rw [loads_iff hc, tries_iff hc]
  obtain ⟨answer, -, hdoes⟩ := exists_does hc
  generalize r.state (i + 1) = after at hdoes ⊢
  cases hdoes with
  | nothing hnil => simp [hnil]
  | unloaded hne hloaded hload => simp [hloaded, hload]
  | uncut hne hready | given hne hready =>
    rw [loaded_afterLoad]
    rcases hready with hloaded | hload
    · simp [hloaded]
    · cases (r.state i).loaded <;> simp [hne, hload]

/-- A call finds the model loaded if an earlier one has loaded it. -/
theorem loaded_iff : (r.state i).loaded = true ↔ ∃ j < i, r.Loads j := by
  induction i with
  | zero => simp [state, unloaded]
  | succ i ih =>
    have hsucc : (r.state (i + 1)).loaded = true ↔ (r.state i).loaded = true ∨ r.Loads i := by
      cases hc : r.calls[i]? with
      | none =>
        rw [state_succ_of_none hc]
        simp [Loads, hc]
      | some c => exact loaded_succ_iff hc
    rw [hsucc, ih]
    constructor
    · rintro (⟨j, hj, hloads⟩ | hloads)
      · exact ⟨j, Nat.lt_succ_of_lt hj, hloads⟩
      · exact ⟨i, Nat.lt_succ_self i, hloads⟩
    · rintro ⟨j, hj, hloads⟩
      rcases Nat.lt_succ_iff_lt_or_eq.1 hj with hj | rfl
      · exact .inl ⟨j, hj, hloads⟩
      · exact .inr hloads

theorem not_loaded_iff : (r.state i).loaded = false ↔ ∀ j < i, ¬r.Loads j := by
  rw [← Bool.not_eq_true, loaded_iff]
  simp

theorem state_loads_le (hc : r.calls[i]? = some c) :
    (r.state (i + 1)).loads ≤ (r.state i).loads + 1 := by
  obtain ⟨answer, -, hdoes⟩ := exists_does hc
  generalize r.state (i + 1) = after at hdoes ⊢
  cases hdoes with
  | nothing => exact Nat.le_succ _
  | unloaded => exact Nat.le_refl _
  | uncut | given =>
    rw [loads_afterLoad]
    split <;> omega

/-- A load that fails ends the call with its message. -/
theorem answer?_of_failed {message : Text} (hc : r.calls[i]? = some c) (htries : r.Tries i)
    (hload : c.model.load = .error message) :
    r.answer? i = some (.error (.service (.load r.settings.name.quoted message))) := by
  obtain ⟨hne, hloaded⟩ := (tries_iff hc).1 htries
  have hunready : ¬Ready c.model (r.state i) := by simp [Ready, hloaded, hload]
  obtain ⟨answer, hanswer, hdoes⟩ := exists_does hc
  generalize r.state (i + 1) = after at hdoes
  cases hdoes with
  | nothing hnil => exact absurd hnil hne
  | unloaded _ _ hload' =>
    cases hload.symm.trans hload'
    exact hanswer
  | uncut _ hready | given _ hready => exact absurd hready hunready

/-- The model is given the texts as they are cut. -/
theorem inputs_of_cut {inputs : List Text} (hc : r.calls[i]? = some c)
    (hne : c.texts ≠ []) (hload : ¬r.FailsToLoad i)
    (hcut : c.texts.map (cut r.tokenizer r.settings) = inputs.map .ok) :
    (r.state (i + 1)).inputs = (r.state i).inputs ++ [inputs] := by
  rw [failsToLoad_iff hc, tries_iff hc] at hload
  obtain ⟨answer, -, hdoes⟩ := exists_does hc
  generalize r.state (i + 1) = after at hdoes ⊢
  cases hdoes with
  | nothing hnil => exact absurd hnil hne
  | unloaded _ hloaded hload' => exact absurd ⟨⟨hne, hloaded⟩, _, hload'⟩ hload
  | uncut _ _ hmem htext =>
    have hok := List.mem_map_of_mem (f := cut r.tokenizer r.settings) hmem
    rw [hcut, htext] at hok
    obtain ⟨input, -, hinput⟩ := List.mem_map.1 hok
    cases hinput
  | given _ _ hcut' =>
    rw [inputs_afterLoad]
    have heq : inputs = _ :=
      List.map_injective_iff.2 (fun _ _ h => Except.ok.inj h) (hcut.symm.trans hcut')
    rw [heq]

/-- Otherwise it is given nothing. -/
theorem inputs_of_not_cut (hc : r.calls[i]? = some c)
    (h : c.texts = [] ∨ r.FailsToLoad i ∨
      ∃ text ∈ c.texts, ∃ f, cut r.tokenizer r.settings text = .error f) :
    (r.state (i + 1)).inputs = (r.state i).inputs := by
  rw [failsToLoad_iff hc, tries_iff hc] at h
  obtain ⟨answer, -, hdoes⟩ := exists_does hc
  generalize r.state (i + 1) = after at hdoes ⊢
  cases hdoes with
  | nothing | unloaded => rfl
  | uncut => exact inputs_afterLoad _
  | @given _ hne hready inputs hcut =>
    exfalso
    rcases h with hnil | ⟨⟨-, hloaded⟩, message, hload⟩ | ⟨text, hmem, f, hf⟩
    · exact hne hnil
    · simp [Ready, hloaded, hload] at hready
    · have hok := List.mem_map_of_mem (f := cut r.tokenizer r.settings) hmem
      rw [hcut, hf] at hok
      obtain ⟨input, -, hinput⟩ := List.mem_map.1 hok
      cases hinput

/-- A model that was given texts and does not encode them ends the call, but stays. -/
theorem answer?_of_not_encoded {inputs : List Text} {message : Text}
    (hc : r.calls[i]? = some c) (hgiven : (r.state (i + 1)).inputs = (r.state i).inputs ++ [inputs])
    (hencode : c.model.encode inputs = .error message) :
    r.answer? i = some (.error (.service (.encode c.texts.length message))) ∧
      (r.state (i + 1)).loaded = true := by
  obtain ⟨answer, hanswer, hdoes⟩ := exists_does hc
  generalize r.state (i + 1) = after at hgiven hdoes ⊢
  cases hdoes with
  | nothing | unloaded => simp at hgiven
  | uncut => simp at hgiven
  | @given _ _ _ texts _ hfails =>
    obtain rfl : texts = inputs := by simpa using hgiven
    rw [hanswer, hfails message hencode]
    exact ⟨rfl, loaded_afterLoad _⟩

/-- What holds of call `i`, which is `c`: when it tries to load the model, what it answers if
loading or encoding fails, and what it gives the model. -/
structure Lazy (r : Run τ) (i : Nat) (c : Call) : Prop where
  tries_iff : r.Tries i ↔ c.texts ≠ [] ∧ ∀ j < i, ¬r.Loads j
  tries_once : (r.state (i + 1)).loads ≤ (r.state i).loads + 1
  not_loaded : ∀ message, r.Tries i → c.model.load = .error message →
    r.answer? i = some (.error (.service (.load r.settings.name.quoted message))) ∧
      (r.state (i + 1)).loaded = false
  not_encoded : ∀ inputs message, (r.state (i + 1)).inputs = (r.state i).inputs ++ [inputs] →
    c.model.encode inputs = .error message →
      r.answer? i = some (.error (.service (.encode c.texts.length message))) ∧
        (r.state (i + 1)).loaded = true
  stays : (r.state i).loaded = true → (r.state (i + 1)).loaded = true
  given : c.texts ≠ [] → ¬r.FailsToLoad i → ∀ inputs,
    c.texts.map (cut r.tokenizer r.settings) = inputs.map .ok →
      (r.state (i + 1)).inputs = (r.state i).inputs ++ [inputs]
  withheld : (c.texts = [] ∨ r.FailsToLoad i ∨
      ∃ text ∈ c.texts, ∃ f, cut r.tokenizer r.settings text = .error f) →
    (r.state (i + 1)).inputs = (r.state i).inputs

theorem lazy_call (hc : r.calls[i]? = some c) : r.Lazy i c where
  tries_iff := by rw [Run.tries_iff hc, not_loaded_iff]
  tries_once := state_loads_le hc
  not_loaded := by
    intro message htries hload
    refine ⟨answer?_of_failed hc htries hload, ?_⟩
    rw [← Bool.not_eq_true, loaded_succ_iff hc, loads_iff hc, hload,
      ((Run.tries_iff hc).1 htries).2]
    simp
  not_encoded := fun _ _ => answer?_of_not_encoded hc
  stays := fun hloaded => (loaded_succ_iff hc).2 (.inl hloaded)
  given := fun hne hload _ => inputs_of_cut hc hne hload
  withheld := inputs_of_not_cut hc

/-- Only one load succeeds. -/
theorem Loads.unique (hi : r.Loads i) (hj : r.Loads j) : i = j := by
  -- the later one of two would have found the model loaded
  have hle : ∀ {i j}, r.Loads i → r.Loads j → j ≤ i := by
    intro i j hi hj
    refine Nat.le_of_not_lt fun hlt => ?_
    obtain ⟨htries, c, hc, -⟩ := hj
    exact not_loaded_iff.1 ((Run.tries_iff hc).1 htries).2 i hlt hi
  exact Nat.le_antisymm (hle hj hi) (hle hi hj)

/-- After a load that fails, the next call with texts tries again. -/
theorem FailsToLoad.tries {k : Nat} (hi : r.FailsToLoad i) (hik : i < k)
    (hc : r.calls[k]? = some c) (hne : c.texts ≠ [])
    (hbetween : ∀ m d, i < m → m < k → r.calls[m]? = some d → d.texts = []) : r.Tries k := by
  obtain ⟨htries, d, message, hd, hload⟩ := hi
  refine (Run.tries_iff hc).2 ⟨hne, not_loaded_iff.2 fun j hj hloads => ?_⟩
  rcases Nat.lt_trichotomy j i with hji | rfl | hij
  · exact not_loaded_iff.1 ((Run.tries_iff hd).1 htries).2 j hji hloads
  · cases hload.symm.trans ((loads_iff hd).1 hloads).2
  · obtain ⟨htries', e, he, -⟩ := hloads
    exact ((Run.tries_iff he).1 htries').1 (hbetween j e hij hj he)

/-- **A run loads its model when it first can, and once.** Of every call it is said when it tries,
what failures do, and what the model is given (`Lazy`); of the whole run, that no more than one load
succeeds and that the next call with texts tries again after one that failed. -/
theorem runs_load_lazily (r : Run τ) :
    (∀ i c, r.calls[i]? = some c → r.Lazy i c) ∧
    (∀ i j, r.Loads i → r.Loads j → i = j) ∧
    ∀ i k c, r.FailsToLoad i → i < k → r.calls[k]? = some c → c.texts ≠ [] →
      (∀ m d, i < m → m < k → r.calls[m]? = some d → d.texts = []) → r.Tries k :=
  ⟨fun _ _ => lazy_call, fun _ _ => Loads.unique,
    fun _ _ _ hi hik hc hne hbetween => hi.tries hik hc hne hbetween⟩

/-- A model that cannot be loaded at first and does not encode afterwards. -/
def troubled : Run (List UInt8) where
  tokenizer := Tokenizer.blocks
  settings := ⟨.text "m", 2⟩
  calls :=
    [⟨.one (Text.ofString "a"), ⟨.error "no file", steady.encode⟩⟩, ⟨.many [], steady⟩,
      ⟨.many [Text.ofString "seven b"], ⟨.ok (), fun _ => .error "no memory"⟩⟩,
      ⟨.one (Text.ofString "a"), steady⟩]

/-- The first call fails to load, the second asks for nothing, and the third loads, although its
text is not encoded. -/
theorem troubled_loads_third :
    troubled.FailsToLoad 0 ∧ troubled.Tries 2 ∧ troubled.Loads 2 ∧
      (∀ j, troubled.Loads j → 2 = j) ∧
      troubled.Lazy 2
        ⟨.many [Text.ofString "seven b"], ⟨.ok (), fun _ => .error "no memory"⟩⟩ := by
  obtain ⟨hlazy, honce, hagain⟩ := runs_load_lazily troubled
  have hfails : troubled.FailsToLoad 0 := by
    refine ⟨?_, _, _, rfl, rfl⟩
    unfold Tries
    decide +kernel
  have htries : troubled.Tries 2 := by
    refine hagain 0 2 _ hfails (by decide) rfl (by decide) fun m d hm hm' hd => ?_
    obtain rfl : m = 1 := by omega
    cases hd
    rfl
  have hloads : troubled.Loads 2 := ⟨htries, _, rfl, rfl⟩
  exact ⟨hfails, htries, hloads, fun j => honce 2 j hloads, hlazy 2 _ rfl⟩

end Run

end ModelEmbedder

end CodeAtlas
