import CodeAtlas.Config.Basic
import CodeAtlas.Proofs.Work

/-!
# Overrides, path by path

What a configuration has at the end of a path depends on what the overrides and the layers below
have there. Following the path in the overrides ends at a value, at a missing key, or is blocked by
a value that is no dictionary, and each says what is found in the end:

    (mergeValue old v).at? path = overlay (old.bind (·.at? path)) (v.follow path)  (at?_mergeValue)

`loaded_path_by_path` says so of the whole configuration, apart from its exclude globs.
-/

namespace CodeAtlas

namespace Value

/-! ## Paths -/

/-- What is at the end of a path of keys. -/
def at? : Value → List Text → Option Value
  | v, [] => some v
  | .dict fs, key :: rest => (Fields.get? fs key).bind (at? · rest)
  | _, _ :: _ => none

/-- Where following a path of keys ends. -/
inductive Met
  | found (v : Value)
  /-- Only dictionaries came before, and the last of them has not got the key. -/
  | missing
  /-- Something that is no dictionary came before the end. -/
  | blocked

def follow : Value → List Text → Met
  | v, [] => .found v
  | .dict fs, key :: rest =>
    match Fields.get? fs key with
    | some v => follow v rest
    | none => .missing
  | _, _ :: _ => .blocked

/-- The fields of a dictionary; nothing else has any. -/
def fields : Value → Fields
  | .dict fs => fs
  | _ => []

def isDict : Value → Bool
  | .dict _ => true
  | _ => false

mutual

/-- No dictionary on a path has a key twice. -/
def keysDistinct : Value → Bool
  | .dict fs => decide (fs.map (·.1)).Nodup && keysDistinctBelow fs
  | _ => true

def keysDistinctBelow : List (Text × Value) → Bool
  | [] => true
  | (_, v) :: fs => keysDistinct v && keysDistinctBelow fs

end

variable {v : Value} {fs : Fields} {key : Text}

@[simp] theorem at?_nil (v : Value) : v.at? [] = some v := by
  cases v <;> rfl

@[simp] theorem follow_nil (v : Value) : v.follow [] = .found v := by
  cases v <;> rfl

@[simp] theorem at?_dict_cons (fs : Fields) (key : Text) (rest : List Text) :
    at? (.dict fs) (key :: rest) = (fs.get? key).bind (at? · rest) := rfl

theorem follow_dict_cons (fs : Fields) (key : Text) (rest : List Text) :
    follow (.dict fs) (key :: rest) =
      match fs.get? key with
      | some v => v.follow rest
      | none => .missing := rfl

theorem at?_cons_of_not_dict (h : v.isDict = false) (key : Text) (rest : List Text) :
    v.at? (key :: rest) = none := by
  cases v with
  | dict => cases h
  | _ => rfl

theorem follow_cons_of_not_dict (h : v.isDict = false) (key : Text) (rest : List Text) :
    v.follow (key :: rest) = .blocked := by
  cases v with
  | dict => cases h
  | _ => rfl

theorem follow_append {w : Value} {path : List Text} (h : v.at? path = some w)
    (rest : List Text) : v.follow (path ++ rest) = w.follow rest := by
  induction path generalizing v with
  | nil =>
    rw [at?_nil] at h
    cases h
    rfl
  | cons key path ih =>
    cases v with
    | dict fs =>
      rw [at?_dict_cons] at h
      obtain ⟨u, hu, hw⟩ := Option.bind_eq_some_iff.1 h
      rw [List.cons_append, follow_dict_cons, hu]
      exact ih hw
    | _ => cases h

theorem follow_of_at? {w : Value} {path : List Text} (h : v.at? path = some w) :
    v.follow path = .found w := by
  rw [← List.append_nil path, follow_append h, follow_nil]

theorem nodup_of_keysDistinct (h : keysDistinct (.dict fs) = true) : (fs.map (·.1)).Nodup := by
  rw [keysDistinct, Bool.and_eq_true, decide_eq_true_iff] at h
  exact h.1

theorem keysDistinct_get? (h : keysDistinct (.dict fs) = true) (hv : fs.get? key = some v) :
    v.keysDistinct = true := by
  rw [keysDistinct, Bool.and_eq_true] at h
  obtain ⟨-, hbelow⟩ := h
  induction fs with
  | nil => cases hv
  | cons field fs ih =>
    obtain ⟨k, u⟩ := field
    rw [keysDistinctBelow, Bool.and_eq_true] at hbelow
    rw [Fields.get?_cons] at hv
    split at hv
    · cases hv
      exact hbelow.1
    · exact ih hv hbelow.2

theorem keysDistinct_at? {w : Value} {path : List Text} (h : v.keysDistinct = true)
    (hw : v.at? path = some w) : w.keysDistinct = true := by
  induction path generalizing v with
  | nil =>
    rw [at?_nil] at hw
    cases hw
    exact h
  | cons key path ih =>
    cases v with
    | dict fs =>
      rw [at?_dict_cons] at hw
      obtain ⟨u, hu, hw⟩ := Option.bind_eq_some_iff.1 hw
      exact ih (keysDistinct_get? h hu) hw
    | _ => cases hw

end Value

theorem Fields.get?_of_notMem {fs : Fields} {key : Text} (h : key ∉ fs.map (·.1)) :
    fs.get? key = none := by
  induction fs with
  | nil => rfl
  | cons field fs ih =>
    rw [List.map_cons, List.mem_cons, not_or] at h
    rw [Fields.get?_cons, if_neg (Ne.symm h.1), ih h.2]

namespace Config

open Value (Met)

/-! ## Merging -/

@[simp] theorem mergeValue_dict (lower upper : Fields) :
    mergeValue (some (.dict lower)) (.dict upper) = .dict (mergeFields lower upper) := by
  rw [mergeValue]

/-- Over anything but a dictionary, a value takes its place. -/
theorem mergeValue_alone {old : Option Value} (h : ∀ lower, old ≠ some (.dict lower)) (v : Value) :
    mergeValue old v = v := by
  cases v with
  | dict upper =>
    rw [mergeValue]
    exact h
  | _ => rw [mergeValue]; simp

theorem mergeValue_of_not_dict {v : Value} (h : v.isDict = false) (old : Option Value) :
    mergeValue old v = v := by
  cases v with
  | dict => cases h
  | _ => rw [mergeValue]; simp

/-- What the merged fields have under a key. -/
theorem get?_mergeFields {upper : Fields} (h : (upper.map (·.1)).Nodup) (lower : Fields)
    (key : Text) :
    (mergeFields lower upper).get? key =
      match upper.get? key with
      | some v => some (mergeValue (lower.get? key) v)
      | none => lower.get? key := by
  induction upper generalizing lower with
  | nil => rfl
  | cons field upper ih =>
    obtain ⟨k, v⟩ := field
    rw [List.map_cons, List.nodup_cons] at h
    obtain ⟨hk, hrest⟩ := h
    rw [mergeFields, ih hrest, Fields.get?_cons, Fields.get?_set]
    by_cases hkey : k = key
    · subst hkey
      rw [Fields.get?_of_notMem hk, if_pos rfl, if_pos rfl]
    · rw [if_neg hkey, if_neg hkey]

/-- What is found in the place of `old`, from what following the overrides has met. -/
def overlay (old : Option Value) : Met → Option Value
  | .found v => some (mergeValue old v)
  | .missing => old
  | .blocked => none

theorem bind_at?_cons_eq_none {old : Option Value} (h : ∀ lower, old ≠ some (.dict lower))
    (key : Text) (rest : List Text) : old.bind (·.at? (key :: rest)) = none := by
  cases old with
  | none => rfl
  | some w =>
    cases w with
    | dict lower => exact absurd rfl (h lower)
    | _ => rfl

theorem at?_mergeValue {v : Value} (h : v.keysDistinct = true) (old : Option Value)
    (path : List Text) :
    (mergeValue old v).at? path = overlay (old.bind (·.at? path)) (v.follow path) := by
  induction path generalizing v old with
  | nil => simp [overlay]
  | cons key rest ih =>
    cases v with
    | dict upper =>
      rw [Value.follow_dict_cons]
      by_cases hold : ∃ lower, old = some (.dict lower)
      · -- both are dictionaries, and what they have under the key is merged
        obtain ⟨lower, rfl⟩ := hold
        rw [mergeValue_dict, Value.at?_dict_cons, get?_mergeFields (Value.nodup_of_keysDistinct h),
          Option.bind_some, Value.at?_dict_cons]
        cases hv : Fields.get? upper key with
        | none => rfl
        | some w => exact ih (Value.keysDistinct_get? h hv) (Fields.get? lower key)
      · -- nothing below is kept, as if nothing had been there
        have halone : ∀ lower, old ≠ some (.dict lower) := fun lower heq => hold ⟨lower, heq⟩
        rw [mergeValue_alone halone, bind_at?_cons_eq_none halone, Value.at?_dict_cons]
        cases hv : Fields.get? upper key with
        | none => rfl
        | some w =>
          have hrest := ih (Value.keysDistinct_get? h hv) none
          rw [mergeValue_alone (by simp)] at hrest
          exact hrest
    | _ =>
      rw [mergeValue_of_not_dict rfl, Value.at?_cons_of_not_dict rfl,
        Value.follow_cons_of_not_dict rfl]
      rfl

/-- What is at a path once `upper` was laid over `lower`, by what `upper` has on the way there. -/
structure OverlaidAt (lower upper merged : Value) (path : List Text) : Prop where
  value : ∀ v, upper.at? path = some v → v.isDict = false → merged.at? path = some v
  missing : ∀ before fs key after, path = before ++ key :: after →
    upper.at? before = some (.dict fs) → Fields.get? fs key = none →
    merged.at? path = lower.at? path
  blocked : ∀ before v key after, path = before ++ key :: after →
    upper.at? before = some v → v.isDict = false → merged.at? path = none
  /-- A dictionary over a dictionary is merged into it. -/
  dict : ∀ sub low, upper.at? path = some (.dict sub) → lower.at? path = some (.dict low) →
    merged.at? path = some (.dict (mergeFields low sub))
  /-- A dictionary over anything else takes its place. -/
  alone : ∀ sub, upper.at? path = some (.dict sub) →
    (∀ low, lower.at? path ≠ some (.dict low)) → merged.at? path = some (.dict sub)

theorem overlaidAt_of_at? {lower upper merged : Value} {path : List Text}
    (h : merged.at? path = overlay (lower.at? path) (upper.follow path)) :
    OverlaidAt lower upper merged path where
  value v hv hdict := by rw [h, Value.follow_of_at? hv, overlay, mergeValue_of_not_dict hdict]
  missing before fs key after hpath hbefore hkey := by
    rw [h, hpath, Value.follow_append hbefore, Value.follow_dict_cons, hkey]
    rfl
  blocked before v key after hpath hbefore hdict := by
    rw [h, hpath, Value.follow_append hbefore, Value.follow_cons_of_not_dict hdict]
    rfl
  dict sub low hsub hlow := by rw [h, Value.follow_of_at? hsub, hlow, overlay, mergeValue_dict]
  alone sub hsub hlow := by
    rw [h, Value.follow_of_at? hsub, overlay, mergeValue_alone hlow]

theorem at?_mergeFields {upper : Fields} (h : Value.keysDistinct (.dict upper) = true)
    (lower : Fields) (path : List Text) :
    Value.at? (.dict (mergeFields lower upper)) path =
      overlay (Value.at? (.dict lower) path) (Value.follow (.dict upper) path) := by
  rw [← mergeValue_dict, at?_mergeValue h]
  rfl

/-! ## The whole configuration -/

theorem at?_applyOverrides {lower fields : Fields} {overrides : Value}
    (h : applyOverrides lower overrides = .ok fields) (hkeys : overrides.keysDistinct = true)
    (key : Text) (rest : List Text) :
    Value.at? (.dict fields) (key :: rest) =
      overlay (Value.at? (.dict lower) (key :: rest))
        (Value.follow (.dict overrides.fields) (key :: rest)) := by
  unfold applyOverrides at h
  split at h
  · cases overrides with
    | dict upper =>
      cases h
      exact at?_mergeFields hkeys lower (key :: rest)
    | _ => cases h
  · next hfalsy =>
    cases h
    have hnone : overrides.fields = [] := by
      cases overrides with
      | dict upper =>
        change upper = []
        simpa [Value.truthy] using hfalsy
      | _ => rfl
    rw [hnone]
    rfl

theorem patternList_texts (patterns : List Text) :
    patternList (.list (patterns.map .text)) = .ok patterns := by
  unfold patternList
  cases patterns with
  | nil => rfl
  | cons p ps =>
    rw [if_neg (by simp [Value.truthy])]
    simp only [Value.elements, bind, Except.bind]
    apply mapM_ok_of_forall₂
    rw [List.forall₂_map_left_iff, List.forall₂_same]
    exact fun _ _ => rfl

theorem load_eq {env : Environment} {folder : Option Text} {overrides : Value} {result : Fields}
    (h : load env folder overrides = .ok result) :
    ∃ lower fields patterns, base env folder = .ok lower ∧
      applyOverrides lower overrides = .ok fields ∧
      patternList ((fields.get? "exclude_patterns").getD .null) = .ok patterns ∧
      result = fields.set "exclude_globs" (.list ((Pattern.expandAll patterns).map .text)) := by
  unfold load at h
  obtain ⟨lower, hlower, h⟩ := ok_of_bind h
  obtain ⟨fields, hfields, h⟩ := ok_of_bind h
  obtain ⟨patterns, hpatterns, h⟩ := ok_of_bind h
  cases h
  exact ⟨lower, fields, patterns, hlower, hfields, hpatterns, rfl⟩

/-- The exclude globs of a configuration are those of its own exclude patterns. -/
theorem exists_excludeGlobs {env : Environment} {folder : Option Text} {overrides : Value}
    {result : Fields} (h : load env folder overrides = .ok result) :
    ∃ patterns, patternList ((result.get? "exclude_patterns").getD .null) = .ok patterns ∧
      (∀ texts, result.get? "exclude_patterns" = some (.list (texts.map .text)) →
        patterns = texts) ∧
      result.get? "exclude_globs" = some (.list ((Pattern.expandAll patterns).map .text)) := by
  obtain ⟨lower, fields, patterns, -, -, hpatterns, rfl⟩ := load_eq h
  have hsame : ∀ v, (fields.set "exclude_globs" v).get? "exclude_patterns" =
      fields.get? "exclude_patterns" := fun v => by rw [Fields.get?_set, if_neg (by decide)]
  refine ⟨patterns, ?_, fun texts htexts => ?_, ?_⟩
  · rw [hsame]
    exact hpatterns
  · rw [hsame] at htexts
    rw [htexts, Option.getD_some, patternList_texts] at hpatterns
    exact (Except.ok.inj hpatterns).symm
  · rw [Fields.get?_set, if_pos rfl]

/-- **Overrides, path by path.** Away from its exclude globs, a configuration has at each path what
the overrides say of it, over defaults, environment and folder; and so has each dictionary of the
overrides, merged into another. The exclude globs are those of the exclude patterns. -/
theorem loaded_path_by_path {env : Environment} {folder : Option Text} {overrides : Value}
    {result : Fields} (hload : load env folder overrides = .ok result)
    (hkeys : overrides.keysDistinct = true) :
    ∃ lower, base env folder = .ok lower ∧
      (∀ (key : Text) rest, key ≠ "exclude_globs" →
        OverlaidAt (.dict lower) (.dict overrides.fields) (.dict result) (key :: rest)) ∧
      (∀ path low sub, overrides.at? path = some (.dict sub) → ∀ rest,
        OverlaidAt (.dict low) (.dict sub) (.dict (mergeFields low sub)) rest) ∧
      ∃ patterns, patternList ((result.get? "exclude_patterns").getD .null) = .ok patterns ∧
        (∀ texts, result.get? "exclude_patterns" = some (.list (texts.map .text)) →
          patterns = texts) ∧
        result.get? "exclude_globs" = some (.list ((Pattern.expandAll patterns).map .text)) := by
  have hglobs := exists_excludeGlobs hload
  obtain ⟨lower, fields, patterns, hlower, hfields, -, rfl⟩ := load_eq hload
  refine ⟨lower, hlower, fun key rest hkey => overlaidAt_of_at? ?_,
    fun path low sub hsub rest => overlaidAt_of_at? ?_, hglobs⟩
  · rw [Value.at?_dict_cons, Fields.get?_set, if_neg (Ne.symm hkey), ← Value.at?_dict_cons]
    exact at?_applyOverrides hfields hkeys key rest
  · exact at?_mergeFields (Value.keysDistinct_at? hkeys hsub) low rest

namespace Sample

def env : Environment := [("QDRANT_HOST", "store"), ("PROJECT_ROOT", "/a")]

/-- A scalar over a dictionary, a dictionary over a scalar, an empty one, a null, and globs, which
are not heard. -/
def overrides : Value := .dict [
  ("search", .int 5),
  ("max_file_size_kb", .dict [("python", .int 64)]),
  ("indexing", .dict []),
  ("embedding", .dict [("backend", .null)]),
  ("exclude_globs", .list [.text "kept"]),
  ("exclude_patterns", .list [.text "*.py"])]

end Sample

open Sample in
theorem sample_path_by_path :
    ∃ result, load env none overrides = .ok result ∧ overrides.keysDistinct = true ∧
      Value.at? (.dict result) ["search"] = some (.int 5) ∧
      Value.at? (.dict result) ["search", "top_k"] = none ∧
      Value.at? (.dict result) ["max_file_size_kb"] = some (.dict [("python", .int 64)]) ∧
      Value.at? (.dict result) ["indexing", "prune_stale"] = some (.bool true) ∧
      Value.at? (.dict result) ["embedding", "backend"] = some .null ∧
      Value.at? (.dict result) ["vector_store", "qdrant", "host"] = some (.text "store") ∧
      result.get? "exclude_globs" = some (.list [.text "*.py", .text "**/*.py"]) := by
  obtain ⟨result, hload⟩ : ∃ result, load env none overrides = .ok result := ⟨_, rfl⟩
  have hkeys : overrides.keysDistinct = true := by decide
  obtain ⟨lower, hlower, hpaths, -, patterns, hpatterns, hlisted, hglobs⟩ :=
    loaded_path_by_path hload hkeys
  have hresult : result.get? "exclude_patterns" = some (.list [.text "*.py"]) := by
    have hvalue := (hpaths "exclude_patterns" [] (by decide)).value _ rfl rfl
    rw [Value.at?_dict_cons] at hvalue
    obtain ⟨v, hv, hlist⟩ := Option.bind_eq_some_iff.1 hvalue
    rw [hv]
    exact hlist
  refine ⟨result, hload, hkeys, ?_, ?_, ?_, ?_, ?_, ?_, ?_⟩
  · exact (hpaths "search" [] (by decide)).value _ rfl rfl
  · exact (hpaths "search" ["top_k"] (by decide)).blocked ["search"] _ "top_k" [] rfl rfl rfl
  · refine (hpaths "max_file_size_kb" [] (by decide)).alone _ rfl fun low hlow => ?_
    cases hlower
    cases hlow
  · rw [(hpaths "indexing" ["prune_stale"] (by decide)).missing ["indexing"] [] "prune_stale" [] rfl
      rfl rfl]
    cases hlower
    rfl
  · exact (hpaths "embedding" ["backend"] (by decide)).value _ rfl rfl
  · rw [(hpaths "vector_store" ["qdrant", "host"] (by decide)).missing [] _ "vector_store" _ rfl
      rfl rfl]
    cases hlower
    rfl
  · rw [hglobs, hlisted ["*.py"] hresult]
    rfl

end Config

end CodeAtlas
