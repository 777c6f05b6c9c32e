import CodeAtlas.Proofs.Unit.Key
import Mathlib.Data.Set.Function

/-!
# Ids and keys are distinct

The last part of an id tells the units of a file apart. It has no underscore, so it can be read back
from the id whatever the token before it looks like:

    lastPart (s ++ "_" ++ t) = t       if t has no underscore       (lastPart_append)

By position it is the unit's number. By structure it is the start of a digest, and the digested names
differ, since a counter tells apart the units of one symbol path. Keys of different files differ by
their paths.
-/

namespace CodeAtlas

namespace Integer

@[simp] theorem text_natCast (n : Nat) : text (n : Int) = String.ofList (Nat.toDigits 10 n) := rfl

theorem natText_inj {m n : Nat} (h : text (m : Int) = text (n : Int)) : m = n := by
  have hd : Nat.toDigits 10 m = Nat.toDigits 10 n := by
    simpa using congrArg String.toList h
  have hr := congrArg (fun digits => Nat.ofDigitChars 10 digits 0) hd
  simpa using hr

/-- No separator stands among the digits of a number. -/
theorem not_mem_natText {n : Nat} {c : Char} (hc : c.isDigit = false) :
    .char c ∉ (text (n : Int) : Text).toList := by
  intro h
  rw [text_natCast, Text.toList_ofString, String.toList_ofList] at h
  obtain ⟨d, hd, hdc⟩ := List.mem_map.1 h
  cases hdc
  rw [Nat.isDigit_of_mem_toDigits (by decide) (by decide) hd] at hc
  cases hc

end Integer

theorem Text.underscore_not_mem_hex (digits n : Nat) : '_' ∉ Text.hex digits n := by
  induction digits generalizing n with
  | zero => exact List.not_mem_nil
  | succ digits ih =>
    unfold Text.hex
    rw [List.mem_append, List.mem_singleton, not_or]
    refine ⟨ih (n / 16), ?_⟩
    have hlt : n % 16 < 16 := Nat.mod_lt n (by decide)
    have hall : ∀ d < 16, '_' ≠ Nat.digitChar d := by decide
    exact hall (n % 16) hlt

/-! ## Reading back what follows a separator -/

/-- Of two texts cut at a separator, the last cut is at the same place. -/
theorem append_separator_inj {α : Type} {p q a b : List α} {sep : α} (ha : sep ∉ a) (hb : sep ∉ b)
    (h : p ++ sep :: a = q ++ sep :: b) : p = q ∧ a = b := by
  rcases List.append_eq_append_iff.1 h with ⟨t, hq, ht⟩ | ⟨t, hp, ht⟩
  · cases t with
    | nil =>
      rw [List.nil_append, List.cons.injEq] at ht
      exact ⟨by rw [hq, List.append_nil], ht.2⟩
    | cons c t =>
      rw [List.cons_append, List.cons.injEq] at ht
      exact absurd (by rw [ht.2]; exact List.mem_append_right t List.mem_cons_self) ha
  · cases t with
    | nil =>
      rw [List.nil_append, List.cons.injEq] at ht
      exact ⟨by rw [hp, List.append_nil], ht.2.symm⟩
    | cons c t =>
      rw [List.cons_append, List.cons.injEq] at ht
      exact absurd (by rw [ht.2]; exact List.mem_append_right t List.mem_cons_self) hb

namespace CodeUnit

/-- What follows the last underscore. -/
def lastPart (id : Text) : Text :=
  Text.ofList (id.toList.reverse.takeWhile (· != CodePoint.char '_')).reverse

theorem lastPart_append {s t : Text} (ht : .char '_' ∉ t.toList) : lastPart (s ++ "_" ++ t) = t := by
  have hkept : ∀ c ∈ t.toList.reverse, (c != .char '_') = true := by
    intro c hc
    rw [bne_iff_ne]
    rintro rfl
    exact ht (List.mem_reverse.1 hc)
  have hrev : (s ++ "_" ++ t).toList.reverse =
      t.toList.reverse ++ .char '_' :: s.toList.reverse := by
    simp [Text.toList_append]
  unfold lastPart
  rw [hrev, List.takeWhile_append_of_pos hkept, List.takeWhile_cons_of_neg (by decide),
    List.append_nil, List.reverse_reverse, Text.ofList_toList]

/-- The start of the digest of a name, as it stands in a structural id. -/
def shortDigest (name : Text) : Text :=
  String.ofList ((hexText (Sha1.digest name.bytes)).take 16)

theorem underscore_not_mem_shortDigest (name : Text) : .char '_' ∉ (shortDigest name).toList := by
  unfold shortDigest
  rw [Text.toList_ofString, String.toList_ofList]
  intro h
  obtain ⟨c, hc, ⟨⟩⟩ := List.mem_map.1 h
  obtain ⟨b, -, hb⟩ := List.mem_flatMap.1 (List.mem_of_mem_take hc)
  exact Text.underscore_not_mem_hex 2 b.toNat hb

@[simp] theorem lastPart_ordinalId (filename token : Text) (ordinal : Nat) :
    lastPart (ordinalId filename token (Integer.text ordinal)) = Integer.text ordinal :=
  lastPart_append (Integer.not_mem_natText rfl)

@[simp] theorem lastPart_structuralId (filePath filename token symbolPath occurrence : Text) :
    lastPart (structuralId filePath filename token symbolPath occurrence) =
      shortDigest (structuralName filePath symbolPath occurrence) :=
  lastPart_append (underscore_not_mem_shortDigest _)

/-- A symbol path may hold any character, also the one that ends it in a name. -/
theorem structuralName_inj {filePath s t : Text} {m n : Nat}
    (h : structuralName filePath s (Integer.text m) = structuralName filePath t (Integer.text n)) :
    s = t ∧ m = n := by
  have hsep : ∀ k : Nat, .char '\x00' ∉ (Integer.text k : Text).toList :=
    fun k => Integer.not_mem_natText rfl
  have hl : s.toList ++ .char '\x00' :: (Integer.text m : Text).toList =
      t.toList ++ .char '\x00' :: (Integer.text n : Text).toList := by
    have := congrArg Text.toList h
    simpa [structuralName, Text.toList_append] using this
  obtain ⟨hs, hn⟩ := append_separator_inj (hsep m) (hsep n) hl
  exact ⟨Text.toList_inj.1 hs, Integer.natText_inj (Text.ofString_inj.1 (Text.toList_inj.1 hn))⟩

end CodeUnit

/-! ## Numbering -/

namespace Extract

section

variable {o : Origin} {ordinal : Nat} {before : List Text} {found : List Found}
  {units : List CodeUnit}

/-- The names that are digested for units with these symbol paths, when those of `before` are already
counted. -/
def digested (filePath : Text) (before : List Text) : List Text → List Text
  | [] => []
  | s :: rest =>
    CodeUnit.structuralName filePath s (Integer.text (occurrences before s)) ::
      digested filePath (s :: before) rest

theorem mem_digested {filePath name : Text} {paths : List Text}
    (h : name ∈ digested filePath before paths) :
    ∃ (s : Text) (n : Nat), occurrences before s ≤ n ∧
      name = CodeUnit.structuralName filePath s (Integer.text n) := by
  induction paths generalizing before with
  | nil => cases h
  | cons s rest ih =>
    rcases List.mem_cons.1 h with rfl | h
    · exact ⟨s, occurrences before s, le_rfl, rfl⟩
    · obtain ⟨t, n, hn, rfl⟩ := ih h
      have hgrow : occurrences before t ≤ occurrences (s :: before) t := List.count_le_count_cons
      exact ⟨t, n, hgrow.trans hn, rfl⟩

/-- No name is digested twice: a later unit of the same path has a higher count. -/
theorem nodup_digested (filePath : Text) (before paths : List Text) :
    (digested filePath before paths).Nodup := by
  induction paths generalizing before with
  | nil => exact List.nodup_nil
  | cons s rest ih =>
    unfold digested
    refine List.nodup_cons.2 ⟨fun hmem => ?_, ih (s :: before)⟩
    obtain ⟨t, n, hn, hname⟩ := mem_digested hmem
    obtain ⟨rfl, rfl⟩ := CodeUnit.structuralName_inj hname
    have hone : occurrences (s :: before) s = occurrences before s + 1 := List.count_cons_self
    omega

/-- By position, the last parts of the ids are the numbers in order. -/
theorem lastParts_ordinal (ho : o.scheme = .ordinal)
    (h : number o ordinal before found = .ok units) :
    (units.map (·.id)).map CodeUnit.lastPart =
      (List.range' ordinal units.length).map fun n : Nat => (Integer.text n : Text) := by
  induction found generalizing ordinal before units with
  | nil => cases h; rfl
  | cons f rest ih =>
    obtain ⟨u, us, hu, hus, rfl⟩ := number_cons h
    obtain ⟨hid, -⟩ := unitOf_ok hu
    have hfirst : CodeUnit.lastPart u.id = Integer.text ordinal := by
      rw [eq_ordinalId ho hid]
      exact CodeUnit.lastPart_ordinalId _ _ _
    rw [List.map_cons, List.map_cons, ih hus, hfirst, List.length_cons, List.range'_succ, List.map_cons]

/-- By structure, the last parts of the ids are the digests of the names in order. -/
theorem lastParts_structural (ho : o.scheme = .structural)
    (h : number o ordinal before found = .ok units) :
    (units.map (·.id)).map CodeUnit.lastPart =
      (digested o.filePath before (units.map (·.symbolPath))).map CodeUnit.shortDigest := by
  induction found generalizing ordinal before units with
  | nil => cases h; rfl
  | cons f rest ih =>
    obtain ⟨u, us, hu, hus, rfl⟩ := number_cons h
    obtain ⟨hid, -, hpath, -⟩ := unitOf_ok hu
    have hfirst : CodeUnit.lastPart u.id = CodeUnit.shortDigest (CodeUnit.structuralName o.filePath
        f.symbolPath (Integer.text (occurrences before f.symbolPath))) := by
      rw [eq_structuralId ho hid]
      exact CodeUnit.lastPart_structuralId _ _ _ _ _
    rw [List.map_cons, List.map_cons, ih hus, hfirst, List.map_cons, hpath, digested, List.map_cons]

/-- When the short digests of the names of a file do not collide. Ids by position need no digest. -/
def CollisionFree (scheme : IdScheme) (filePath : Text) (units : List CodeUnit) : Prop :=
  scheme = .structural →
    Set.InjOn CodeUnit.shortDigest
      { name | name ∈ digested filePath [] (units.map (·.symbolPath)) }

theorem collisionFree_of_nodup {scheme : IdScheme} {filePath : Text}
    (h : ((digested filePath [] (units.map (·.symbolPath))).map CodeUnit.shortDigest).Nodup) :
    CollisionFree scheme filePath units :=
  fun _ _ ha _ hb hab => List.inj_on_of_nodup_map h ha hb hab

theorem nodup_ids_number (h : number o ordinal [] found = .ok units)
    (hfree : CollisionFree o.scheme o.filePath units) : (units.map (·.id)).Nodup := by
  apply List.Nodup.of_map CodeUnit.lastPart
  cases ho : o.scheme with
  | ordinal =>
    rw [lastParts_ordinal ho h]
    exact List.Nodup.map (fun m n h => Integer.natText_inj (Text.ofString_inj.1 h)) List.nodup_range'
  | structural =>
    rw [lastParts_structural ho h]
    exact (nodup_digested o.filePath [] _).map_on fun a ha b hb => hfree ho ha hb

end

/-! ## Calls of the extractor -/

/-- A file to extract units from: its content is known to be text, or is read as bytes. -/
structure Call where
  languages : List Language
  grammars : Grammars
  settings : Settings
  content : Text ⊕ List UInt8
  tag : Text
  filePath : Text

def Call.result (c : Call) : Except Error (List CodeUnit) :=
  match c.content with
  | .inl text =>
    extractString c.languages c.grammars c.settings text c.tag c.filePath
  | .inr bytes => extractBytes c.languages c.grammars c.settings bytes c.tag c.filePath

/-- The units that the call returns, none if it fails. -/
def Call.units (c : Call) : List CodeUnit := c.result.toOption.getD []

theorem Call.units_cases (c : Call) :
    c.units = [] ∨
      ∃ source found,
        number ⟨c.settings.scheme, c.filePath, c.tag, source⟩ 0 [] found = .ok c.units := by
  cases hr : c.result with
  | error e => exact .inl (by rw [Call.units, hr]; rfl)
  | ok units =>
    have hu : c.units = units := by rw [Call.units, hr]; rfl
    rw [hu]
    unfold result at hr
    split at hr
    · obtain ⟨s, -, hr⟩ := extractString_ok hr
      exact (extractText_ok hr).imp_right fun ⟨found, h⟩ => ⟨_, found, h⟩
    · exact (extractText_ok (extractBytes_ok hr)).imp_right fun ⟨found, h⟩ => ⟨_, found, h⟩

theorem Call.filePath_of_mem_units {c : Call} {u : CodeUnit} (hu : u ∈ c.units) :
    u.filePath = c.filePath := by
  rcases c.units_cases with hnone | ⟨source, found, h⟩
  · rw [hnone] at hu
    cases hu
  · exact filePath_of_mem_number h hu

def Call.IsCollisionFree (c : Call) : Prop := CollisionFree c.settings.scheme c.filePath c.units

theorem Call.nodup_ids {c : Call} (hfree : c.IsCollisionFree) : (c.units.map (·.id)).Nodup := by
  rcases c.units_cases with hnone | ⟨source, found, h⟩
  · rw [hnone]
    exact List.nodup_nil
  · exact nodup_ids_number h hfree

theorem Call.nodup_keys {c : Call} (hfree : c.IsCollisionFree) : (c.units.map (·.key)).Nodup := by
  have hkeys : c.units.map (·.key) = (c.units.map (·.id)).map fun id => c.filePath ++ "::" ++ id := by
    rw [List.map_map]
    refine List.map_congr_left fun u hu => ?_
    rw [← filePath_of_mem_units hu]
    rfl
  rw [hkeys]
  refine (nodup_ids hfree).map fun a b hab => ?_
  apply Text.toList_inj.1
  have hl := congrArg Text.toList hab
  simpa [Text.toList_append] using hl

theorem Call.disjoint_keys {c d : Call} (hc : IsPlainPath c.filePath) (hd : IsPlainPath d.filePath)
    (hne : c.filePath ≠ d.filePath) : List.Disjoint (c.units.map (·.key)) (d.units.map (·.key)) := by
  intro key hkc hkd
  obtain ⟨u, hu, rfl⟩ := List.mem_map.1 hkc
  obtain ⟨v, hv, huv⟩ := List.mem_map.1 hkd
  have hfu := filePath_of_mem_units hu
  have hfv := filePath_of_mem_units hv
  apply hne
  rw [← hfu, ← hfv]
  exact CodeUnit.filePath_eq_of_key_eq (hfu ▸ hc) (hfv ▸ hd) huv.symm

/-- The ids of one call are distinct, and so are the keys of calls for files with different plain
paths. -/
theorem unit_keys_distinct :
    (∀ c : Call, c.IsCollisionFree → (c.units.map (·.id)).Nodup) ∧
      ∀ calls : List Call, (calls.map (·.filePath)).Nodup →
        (∀ c ∈ calls, IsPlainPath c.filePath) → (∀ c ∈ calls, c.IsCollisionFree) →
          ((calls.flatMap (·.units)).map (·.key)).Nodup := by
  refine ⟨fun c => Call.nodup_ids, fun calls hpaths hplain hfree => ?_⟩
  rw [List.map_flatMap, List.nodup_flatMap]
  refine ⟨fun c hc => Call.nodup_keys (hfree c hc), ?_⟩
  refine (List.pairwise_map.1 hpaths).imp_of_mem fun hc hd hne => ?_
  exact Call.disjoint_keys (hplain _ hc) (hplain _ hd) hne

namespace Sample

/-- A file of two functions without names, extracted by structure. -/
def call (filePath : Text) : Call where
  languages := Language.catalog
  grammars := fun _ => .ok fun source =>
    let unit : ParseTree := .node "function_definition" none ⟨0, source.length, 0, 0⟩ []
    ⟨.node "module" none ⟨0, source.length, 0, 0⟩ [unit, unit], false⟩
  settings := ⟨.structural, true⟩
  content := .inl "_::_"
  tag := "python"
  filePath := filePath

end Sample

/-- Two files of two functions each, all without a name, have four keys. -/
theorem unnamed_keys_distinct :
    (((["a.py", "b.py"] : List Text).map Sample.call).flatMap (·.units)).length = 4 ∧
      ((((["a.py", "b.py"] : List Text).map Sample.call).flatMap (·.units)).map (·.key)).Nodup := by
  refine ⟨by decide +kernel, unit_keys_distinct.2 _ (by decide) ?_ ?_⟩
  · intro c hc
    obtain ⟨file, hfile, rfl⟩ := List.mem_map.1 hc
    rcases List.mem_pair.1 hfile with rfl | rfl <;> decide
  · intro c hc
    obtain ⟨file, hfile, rfl⟩ := List.mem_map.1 hc
    rcases List.mem_pair.1 hfile with rfl | rfl <;>
      exact collisionFree_of_nodup (by decide +kernel)

end Extract

end CodeAtlas
