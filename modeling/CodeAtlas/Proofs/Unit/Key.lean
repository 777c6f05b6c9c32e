import CodeAtlas.Proofs.Store.Listing
import CodeAtlas.Proofs.Work
import CodeAtlas.Unit.Extract
import Mathlib.Data.List.Infix

/-!
# Keys of units

A key is a path, `::` and an id. A path that has no `::` and does not end in a colon (`IsPlainPath`)
can be read back from a key (`key_inj`), so that the keys of a file are told by how they begin:

    CodeUnit.keyInFiles u.key files = true ↔ u.filePath ∈ files       (keyInFiles_key)

A unit's point keeps its key, its file and its project where listings look for them.
-/

namespace CodeAtlas

/-- What stands between the path and the id of a key. -/
abbrev colons : List CodePoint := [.char ':', .char ':']

/-- A path that has no `::` and does not end in a colon. -/
structure IsPlainPath (file : Text) : Prop where
  noMark : ¬ colons <:+: file.toList
  noColon : file.toList.getLast? ≠ some (.char ':')

instance (file : Text) : Decidable (IsPlainPath file) :=
  decidable_of_iff (¬ colons <:+: file.toList ∧ file.toList.getLast? ≠ some (.char ':'))
    ⟨fun h => ⟨h.1, h.2⟩, fun h => ⟨h.noMark, h.noColon⟩⟩

namespace CodeUnit

/-- Of two ways to read a key, the longer path is the shorter one, or goes on after it with `::`. -/
theorem mark_append {f g t i j : List CodePoint} (hlast : g.getLast? ≠ some (.char ':'))
    (hgt : g = f ++ t) (h : colons ++ i = t ++ (colons ++ j)) :
    t = [] ∨ ∃ rest, t = colons ++ rest ∧ i = rest ++ (colons ++ j) := by
  subst hgt
  match t, h with
  | [], _ => exact Or.inl rfl
  | [c], h =>
    simp only [List.cons_append, List.nil_append, List.cons.injEq] at h
    exact absurd (by simp [← h.1]) hlast
  | c :: d :: rest, h =>
    simp only [List.cons_append, List.nil_append, List.cons.injEq] at h
    obtain ⟨rfl, rfl, hi⟩ := h
    exact Or.inr ⟨rest, rfl, hi⟩

/-- A plain path leaves only one way to read a key. -/
theorem plain_append {f g i j : List CodePoint} (hg : ¬ colons <:+: g)
    (hlast : g.getLast? ≠ some (.char ':')) {t : List CodePoint} (hgt : g = f ++ t)
    (h : colons ++ i = t ++ (colons ++ j)) : t = [] := by
  rcases mark_append hlast hgt h with hnil | ⟨rest, rfl, -⟩
  · exact hnil
  · exact absurd ⟨f, rest, by rw [hgt, List.append_assoc]⟩ hg

theorem key_inj {f g i j : Text} (hf : IsPlainPath f) (hg : IsPlainPath g)
    (h : f ++ "::" ++ i = g ++ "::" ++ j) : f = g := by
  have hl : f.toList ++ (colons ++ i.toList) = g.toList ++ (colons ++ j.toList) := by
    have := congrArg Text.toList h
    simpa [Text.toList_append] using this
  apply Text.toList_inj.1
  rcases List.append_eq_append_iff.1 hl with ⟨t, hgt, ht⟩ | ⟨t, hft, ht⟩
  · rw [hgt, plain_append hg.noMark hg.noColon hgt ht, List.append_nil]
  · rw [hft, plain_append hf.noMark hf.noColon hft ht, List.append_nil]

theorem filePath_eq_of_key_eq {u v : CodeUnit} (hu : IsPlainPath u.filePath)
    (hv : IsPlainPath v.filePath) (h : u.key = v.key) : u.filePath = v.filePath :=
  key_inj hu hv h

/-- How the key of a unit can begin like those of another file: the path of its own file begins so,
or the path of the other file begins like the key. -/
inductive Resembles (u : CodeUnit) (file : Text) : Prop
  | below (rest : Text) (hpath : u.filePath = file ++ "::" ++ rest)
  | above (rest more : Text) (hfile : file = u.filePath ++ "::" ++ rest)
    (hid : u.id = rest ++ "::" ++ more)

/-- A key begins like those of a file iff the file is its own or one that it resembles. -/
theorem prefix_key_iff {u : CodeUnit} {file : Text}
    (hu : u.filePath.toList.getLast? ≠ some (.char ':'))
    (hf : file.toList.getLast? ≠ some (.char ':')) :
    (file ++ "::").toList <+: u.key.toList ↔ u.filePath = file ∨ u.Resembles file := by
  have hmark : ("::" : Text).toList = colons := rfl
  constructor
  · rintro ⟨more, hmore⟩
    rw [key, Text.toList_append, Text.toList_append, Text.toList_append, hmark,
      List.append_assoc, List.append_assoc] at hmore
    rcases List.append_eq_append_iff.1 hmore with ⟨t, hpath, ht⟩ | ⟨t, hfile, ht⟩
    · rcases mark_append hu hpath ht with rfl | ⟨rest, rfl, -⟩
      · exact Or.inl (Text.toList_inj.1 (by simpa using hpath))
      · refine Or.inr (.below (Text.ofList rest) (Text.toList_inj.1 ?_))
        simpa [Text.toList_append] using hpath
    · rcases mark_append hf hfile ht with rfl | ⟨rest, rfl, hid⟩
      · exact Or.inl (Text.toList_inj.1 (by simpa using hfile.symm))
      · refine Or.inr (.above (Text.ofList rest) (Text.ofList more) (Text.toList_inj.1 ?_)
          (Text.toList_inj.1 ?_))
        · simpa [Text.toList_append] using hfile
        · simpa [Text.toList_append] using hid
  · rintro (rfl | ⟨rest, hpath⟩ | ⟨rest, more, rfl, hid⟩)
    · exact ⟨u.id.toList, by simp [key, Text.toList_append]⟩
    · exact ⟨rest.toList ++ ("::" ++ u.id).toList, by simp [key, hpath, Text.toList_append]⟩
    · exact ⟨more.toList, by simp [key, hid, Text.toList_append]⟩

/-- Between plain paths nothing resembles another. -/
theorem Resembles.not_plain {u : CodeUnit} {file : Text} (h : u.Resembles file) :
    colons <:+: u.filePath.toList ∨ colons <:+: file.toList := by
  cases h with
  | below rest hpath => exact Or.inl ⟨file.toList, rest.toList, by simp [hpath, Text.toList_append]⟩
  | above rest more hfile _ =>
    exact Or.inr ⟨u.filePath.toList, rest.toList, by simp [hfile, Text.toList_append]⟩

theorem keyInFiles_iff {u : CodeUnit} {files : List Text}
    (hu : u.filePath.toList.getLast? ≠ some (.char ':'))
    (hf : ∀ file ∈ files, file.toList.getLast? ≠ some (.char ':')) :
    keyInFiles u.key files = true ↔ u.filePath ∈ files ∨ ∃ file ∈ files, u.Resembles file := by
  unfold keyInFiles
  rw [List.any_eq_true]
  constructor
  · rintro ⟨file, hfile, hp⟩
    rcases (prefix_key_iff hu (hf file hfile)).1 (List.isPrefixOf_iff_prefix.1 hp) with rfl | hr
    · exact Or.inl hfile
    · exact Or.inr ⟨file, hfile, hr⟩
  · rintro (hmem | ⟨file, hfile, hr⟩)
    · exact ⟨_, hmem, List.isPrefixOf_iff_prefix.2 ((prefix_key_iff hu hu).2 (Or.inl rfl))⟩
    · exact ⟨file, hfile,
        List.isPrefixOf_iff_prefix.2 ((prefix_key_iff hu (hf file hfile)).2 (Or.inr hr))⟩

/-- A key begins like those of plain files iff it is one of theirs. -/
theorem keyInFiles_key {u : CodeUnit} {files : List Text} (hu : IsPlainPath u.filePath)
    (hf : ∀ file ∈ files, IsPlainPath file) : keyInFiles u.key files = true ↔ u.filePath ∈ files := by
  rw [keyInFiles_iff hu.noColon fun file hfile => (hf file hfile).noColon, or_iff_left_iff_imp]
  rintro ⟨file, hfile, hr⟩
  rcases hr.not_plain with hmark | hmark
  · exact absurd hmark hu.noMark
  · exact absurd hmark (hf file hfile).noMark

end CodeUnit

/-! ## Points of units -/

namespace Point

/-- The text that a field of the payload holds. -/
def text? (p : Point) (field : Text) : Option Text := (p.payload.get? field).bind Value.text?

def key? (p : Point) : Option Text := p.text? VectorIndex.keyField

def file? (p : Point) : Option Text := p.text? "file_path"

def project? (p : Point) : Option Text := p.text? "project"

/-- Whether a field of the payload is a text, or lists it. -/
def holds (p : Point) (field text : Text) : Bool :=
  ((p.payload.get? field).map (Sought.text text).isHeld).getD false

theorem holds_iff {p : Point} {field s : Text} (h : p.text? field = some s) (text : Text) :
    p.holds field text = true ↔ s = text := by
  unfold text? at h
  unfold holds
  obtain ⟨v, hv, hs⟩ := Option.bind_eq_some_iff.1 h
  cases v <;> cases hs
  simp [hv, Sought.isHeld, Sought.isMet, Sought.ofValue?]

theorem accepts_project (p : Point) (project : Text) :
    (VectorIndex.filterOf none (some (.text project))).accepts p.payload =
      p.holds "project" project := by
  simp [VectorIndex.filterOf, PayloadFilter.accepts, holds]

theorem accepts_file (p : Point) (file : Text) :
    (VectorIndex.filterOf (some (.text file)) none).accepts p.payload = p.holds "file_path" file := by
  simp [VectorIndex.filterOf, PayloadFilter.accepts, holds]

end Point

/-- The point that is written for a unit with its vector. -/
def CodeUnit.point (project now : Text) (u : CodeUnit) (v : Embedding) : Point :=
  VectorIndex.pointOf ⟨u.key, v, u.payload project now⟩

namespace CodeUnit

variable (project now : Text) (u : CodeUnit) (v : Embedding)

@[simp] theorem point_id : (u.point project now v).id = PointId.ofKey u.key := rfl

@[simp] theorem point_vector : (u.point project now v).vector = v := rfl

/-- The payload of a unit's point. -/
theorem get?_point_payload (field : Text) : (u.point project now v).payload.get? field =
    if field = VectorIndex.keyField then some (.text u.key)
    else (u.payload project now).get? field := by
  unfold point VectorIndex.pointOf
  rw [Fields.get?_set]
  by_cases h : field = VectorIndex.keyField
  · rw [if_pos h, if_pos h.symm]
  · rw [if_neg h, if_neg (Ne.symm h)]

@[simp] theorem point_key? : (u.point project now v).key? = some u.key := by
  unfold Point.key? Point.text?
  rw [get?_point_payload, if_pos rfl]
  rfl

@[simp] theorem point_file? : (u.point project now v).file? = some u.filePath := by
  unfold Point.file? Point.text?
  rw [get?_point_payload, if_neg (by decide)]
  simp [payload, Fields.get?_cons, Value.text?]

@[simp] theorem point_project? : (u.point project now v).project? = some project := by
  unfold Point.project? Point.text?
  rw [get?_point_payload, if_neg (by decide)]
  simp [payload, Fields.get?_cons, Value.text?]

@[simp] theorem keyOf_point : VectorIndex.keyOf (u.point project now v) = .text u.key :=
  VectorIndex.keyOf_pointOf _

end CodeUnit

/-- A point without the time of its writing. -/
def Point.untimed (p : Point) : Point := { p with payload := p.payload.erase "indexed_at" }

/-- Nothing else in the point of a unit depends on the time. -/
theorem CodeUnit.untimed_point (project now now' : Text) (u : CodeUnit) (v : Embedding) :
    (u.point project now v).untimed = (u.point project now' v).untimed := by
  simp [Point.untimed, point, VectorIndex.pointOf, payload, Fields.set, Fields.erase,
    VectorIndex.keyField]

/-! ## Files of units -/

namespace Extract

variable {o : Origin} {ordinal : Nat} {before : List Text} {found : List Found}
  {units : List CodeUnit}

theorem number_cons {f : Found} (h : number o ordinal before (f :: found) = .ok units) :
    ∃ u us, unitOf o ordinal before f = .ok u ∧
      number o (ordinal + 1) (f.symbolPath :: before) found = .ok us ∧ units = u :: us := by
  unfold number at h
  obtain ⟨u, hone, h⟩ := ok_of_bind h
  obtain ⟨us, hmore, h⟩ := ok_of_bind h
  cases h
  exact ⟨u, us, hone, hmore, rfl⟩

theorem eq_ordinalId (ho : o.scheme = .ordinal) {f : Found} {id : Text}
    (h : unitId o ordinal before f = .ok id) :
    id = CodeUnit.ordinalId o.filename f.token (Integer.text ordinal) := by
  unfold unitId at h
  rw [ho] at h
  cases h
  rfl

theorem eq_structuralId (ho : o.scheme = .structural) {f : Found} {id : Text}
    (h : unitId o ordinal before f = .ok id) :
    id = CodeUnit.structuralId o.filePath o.filename f.token f.symbolPath
      (Integer.text (occurrences before f.symbolPath)) := by
  unfold unitId at h
  rw [ho] at h
  dsimp only [CodeUnit.structuralId?] at h
  split at h <;> cases h
  rfl

theorem unitOf_ok {f : Found} {u : CodeUnit} (h : unitOf o ordinal before f = .ok u) :
    unitId o ordinal before f = .ok u.id ∧ u.filePath = o.filePath ∧ u.symbolPath = f.symbolPath ∧
      u.ordinal = ordinal := by
  unfold unitOf at h
  obtain ⟨id, hid, h⟩ := ok_of_bind h
  have hmade : unitId o ordinal before f = .ok id := by
    cases hx : unitId o ordinal before f with
    | error e =>
      rw [hx] at hid
      cases hid
    | ok x =>
      rw [hx] at hid
      cases hid
      rfl
  split at h <;> cases h
  exact ⟨hmade, rfl, rfl, rfl⟩

theorem filePath_of_mem_number (h : number o ordinal before found = .ok units) {u : CodeUnit}
    (hu : u ∈ units) : u.filePath = o.filePath := by
  induction found generalizing ordinal before units with
  | nil =>
    cases h
    cases hu
  | cons f rest ih =>
    obtain ⟨first, more, hone, hmore, rfl⟩ := number_cons h
    rcases List.mem_cons.1 hu with rfl | hu
    · exact (unitOf_ok hone).2.1
    · exact ih hmore hu

/-- Units come from numbering, if there are any. -/
theorem extractText_ok {languages : List Language} {grammars : Grammars} {settings : Settings}
    {source : List UInt8} {tag filePath : Text}
    (h : extractText languages grammars settings source tag filePath = .ok units) :
    units = [] ∨ ∃ found, number ⟨settings.scheme, filePath, tag, source⟩ 0 [] found = .ok units := by
  unfold extractText at h
  split at h
  · cases h
  · split at h
    · cases h
      exact .inl rfl
    · split at h
      · cases h
      · dsimp only at h
        split at h
        · cases h
        · exact .inr ⟨_, h⟩

theorem extractBytes_ok {languages : List Language} {grammars : Grammars} {settings : Settings}
    {source : List UInt8} {tag filePath : Text}
    (h : extractBytes languages grammars settings source tag filePath = .ok units) :
    extractText languages grammars settings source tag filePath = .ok units := by
  unfold extractBytes at h
  split at h
  · cases h
  · cases h
  · exact h

/-- Units of a text are those of its UTF-8. -/
theorem extractString_ok {languages : List Language} {grammars : Grammars} {settings : Settings}
    {source tag filePath : Text}
    (h : extractString languages grammars settings source tag filePath = .ok units) :
    ∃ s : String, source = s ∧
      extractText languages grammars settings (Utf8.encode s) tag filePath = .ok units := by
  unfold extractString at h
  split at h
  · cases h
  · cases h
  · next s _ hs => exact ⟨s, (Text.ofString_of_asString hs).symm, h⟩

/-- The units of a file carry its path. -/
theorem filePath_of_mem_extractBytes {languages : List Language} {grammars : Grammars}
    {settings : Settings} {source : List UInt8} {tag filePath : Text}
    (h : extractBytes languages grammars settings source tag filePath = .ok units) {u : CodeUnit}
    (hu : u ∈ units) : u.filePath = filePath := by
  rcases extractText_ok (extractBytes_ok h) with rfl | ⟨found, hfound⟩
  · cases hu
  · exact filePath_of_mem_number hfound hu

end Extract

end CodeAtlas
