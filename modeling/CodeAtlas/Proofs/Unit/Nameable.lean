import CodeAtlas.Proofs.Unit.Preorder

/-!
# Units that can be named

A structural id is made of the UTF-8 of the file's path, the symbol path and a number. A name on a
disk that is no UTF-8 is read as a text with surrogates, and such a path has no UTF-8 itself. So by
structure a unit can be named iff there is UTF-8 of both paths (`Origin.Names`). Units whose spans
cover whole characters are numbered to the end iff all of them can be named (`number_of_decode`).

The tokens of a source have UTF-8, whatever bytes it is made of. With a language whose own words have
UTF-8 too it is the file's path alone that decides (`encodeError?_symbolPath`).
-/

namespace CodeAtlas

/-! ## Texts that can be encoded -/

namespace CodePoint

theorem encodeError?_eq_none_iff {offset : Nat} {cs : List CodePoint} :
    encodeError? offset cs = none ↔ ∀ c ∈ cs, c.isSurrogate = false := by
  induction cs generalizing offset with
  | nil => simp [encodeError?]
  | cons c cs ih =>
    cases c with
    | char c => simp [encodeError?, ih, isSurrogate]
    | surrogate n => simp [encodeError?, isSurrogate]

end CodePoint

namespace Text

theorem encodeError?_eq_none_iff {t : Text} :
    t.encodeError? = none ↔ ∀ c ∈ t.toList, c.isSurrogate = false :=
  CodePoint.encodeError?_eq_none_iff

theorem encodeError?_append {s t : Text} :
    (s ++ t).encodeError? = none ↔ s.encodeError? = none ∧ t.encodeError? = none := by
  simp only [encodeError?_eq_none_iff, toList_append, List.forall_mem_append]

theorem encodeError?_intercalate {sep : Text} {texts : List Text} (hsep : sep.encodeError? = none)
    (h : ∀ t ∈ texts, t.encodeError? = none) : (sep.intercalate texts).encodeError? = none := by
  induction texts with
  | nil => rfl
  | cons t texts ih =>
    have ih := ih fun s hs => h s (List.mem_cons_of_mem _ hs)
    cases texts with
    | nil =>
      have hone : sep.intercalate [t] = t := toList_inj.1 (@List.intercalate_singleton _ sep.toList _)
      rw [hone]
      exact h t List.mem_cons_self
    | cons s texts =>
      have hcons : sep.intercalate (t :: s :: texts) = t ++ sep ++ sep.intercalate (s :: texts) :=
        toList_inj.1 (List.intercalate_cons_of_ne_nil (by simp))
      rw [hcons, encodeError?_append, encodeError?_append]
      exact ⟨⟨h t List.mem_cons_self, hsep⟩, ih⟩

end Text

/-! ## Names of units -/

namespace Extract

/-- Whether the unit that was found can be named. -/
def Origin.Names (o : Origin) (f : Found) : Prop :=
  o.scheme = .structural → o.filePath.encodeError? = none ∧ f.symbolPath.encodeError? = none

instance (o : Origin) (f : Found) : Decidable (o.Names f) := by
  unfold Origin.Names
  infer_instance

section

variable {o : Origin} {f : Found} {found : List Found}

theorem structuralId?_ok_iff {filePath filename token symbolPath : Text} {n : Nat} :
    (∃ id, CodeUnit.structuralId? filePath filename token symbolPath (Integer.text n) = .ok id) ↔
      filePath.encodeError? = none ∧ symbolPath.encodeError? = none := by
  have hname : (CodeUnit.structuralName filePath symbolPath (Integer.text n)).encodeError? = none ↔
      filePath.encodeError? = none ∧ symbolPath.encodeError? = none := by
    simp only [CodeUnit.structuralName, Text.encodeError?_append, Text.encodeError?_ofString,
      and_true]
  rw [← hname]
  unfold CodeUnit.structuralId?
  cases (CodeUnit.structuralName filePath symbolPath (Integer.text n)).encodeError? <;> simp

theorem exists_unitId_iff (ordinal : Nat) (before : List Text) :
    (∃ id, unitId o ordinal before f = .ok id) ↔ o.Names f := by
  unfold unitId Origin.Names
  cases o.scheme with
  | ordinal => exact ⟨fun _ => nofun, fun _ => ⟨_, rfl⟩⟩
  | structural =>
    dsimp only
    rw [structuralId?_ok_iff]
    exact ⟨fun h _ => h, fun h => h rfl⟩

/-- A unit whose span covers whole characters is made, unless it cannot be named. -/
theorem unitOf_of_decode {code : String} (ordinal : Nat) (before : List Text)
    (h : Utf8.decode (byteSlice o.source f.node.span.startByte f.node.span.endByte) = .ok code) :
    (o.Names f ∧ ∃ u, unitOf o ordinal before f = .ok u) ∨
      ¬ o.Names f ∧ ∃ e, unitOf o ordinal before f = .error (.encode e) := by
  rw [← exists_unitId_iff ordinal before]
  unfold unitOf
  rw [h]
  cases unitId o ordinal before f with
  | ok id => exact .inl ⟨⟨id, rfl⟩, _, rfl⟩
  | error e => exact .inr ⟨nofun, e, rfl⟩

/-- Units whose spans cover whole characters are numbered to the end, unless one cannot be named. -/
theorem number_of_decode (ordinal : Nat) (before : List Text)
    (h : ∀ f ∈ found, ∃ code,
      Utf8.decode (byteSlice o.source f.node.span.startByte f.node.span.endByte) = .ok code) :
    ((∀ f ∈ found, o.Names f) ∧ ∃ units, number o ordinal before found = .ok units) ∨
      (¬ ∀ f ∈ found, o.Names f) ∧ ∃ e, number o ordinal before found = .error (.encode e) := by
  induction found generalizing ordinal before with
  | nil => exact .inl ⟨nofun, [], rfl⟩
  | cons f found ih =>
    obtain ⟨code, hcode⟩ := h f List.mem_cons_self
    rw [number, List.forall_mem_cons]
    rcases unitOf_of_decode ordinal before hcode with
      ⟨hf, u, hu⟩ | ⟨hf, e, he⟩
    · rw [hu]
      rcases ih (ordinal + 1) (f.symbolPath :: before)
        (fun g hg => h g (List.mem_cons_of_mem _ hg)) with ⟨hrest, us, hus⟩ | ⟨hrest, e, he⟩
      · rw [hus]
        exact .inl ⟨⟨hf, hrest⟩, _, rfl⟩
      · rw [he]
        exact .inr ⟨fun hall => hrest hall.2, e, rfl⟩
    · rw [he]
      exact .inr ⟨fun hall => hf hall.1, e, rfl⟩

end

end Extract

/-! ## Tokens of a source -/

theorem ParseTree.encodeError?_token {language : Language}
    (h : language.fallbackToken.encodeError? = none) (source : List UInt8)
    (parent : Option ParseTree) (t : ParseTree) :
    (t.token language source parent).encodeError? = none := by
  unfold token
  split
  · exact Text.encodeError?_ofString _
  · exact h

theorem Place.encodeError?_symbolPath {language : Language}
    (h : language.fallbackToken.encodeError? = none) (source : List UInt8) (p : Place) :
    (p.symbolPath language source).encodeError? = none := by
  refine Text.encodeError?_intercalate rfl fun t ht => ?_
  rcases List.mem_append.1 ht with ht | ht
  · obtain ⟨q, -, rfl⟩ := List.mem_map.1 ht
    exact q.node.encodeError?_token h source _
  · cases List.mem_singleton.1 ht
    exact p.node.encodeError?_token h source _

theorem Language.encodeError?_fallbackToken {language : Language} (h : language ∈ catalog) :
    language.fallbackToken.encodeError? = none := by
  have hall : ∀ l ∈ catalog, l.fallbackToken.encodeError? = none := by decide
  exact hall language h

end CodeAtlas
