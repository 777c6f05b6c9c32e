import CodeAtlas.Proofs.Unit.Preorder
import Mathlib.Logic.Relation

/-!
# Structural ids stay

A structural id tells the units of one symbol path apart by a counter, and the counter of a path
counts units of that path only. So the ids of the units of a path, in order, are told by the path of
the file, the symbol path and the tokens of these units:

    (unitsAt s units).map (·.id) = structuralIds filePath s 0 ((unitsAt s units).map (·.token))

Whatever else two extractions differ in, languages, trees and sources included, units that agree in
these three have the same ids (`structural_ids_stay`). Above all, no id of a path changes when units
of other paths come, go, move or are edited (`ChangedElsewhere`).
-/

namespace CodeAtlas

namespace CodeUnit

/-- The structural ids of units of one symbol path with these tokens, when `count` units of that path
came before. -/
def structuralIds (filePath symbolPath : Text) (count : Nat) : List Text → List Text
  | [] => []
  | token :: tokens =>
    structuralId filePath (baseName filePath) token symbolPath (Integer.text count) ::
      structuralIds filePath symbolPath (count + 1) tokens

end CodeUnit

namespace Extract

/-- The units of a symbol path. -/
def unitsAt (symbolPath : Text) (units : List CodeUnit) : List CodeUnit :=
  units.filter (·.symbolPath = symbolPath)

theorem unitsAt_cons (s : Text) (u : CodeUnit) (us : List CodeUnit) :
    unitsAt s (u :: us) = if u.symbolPath = s then u :: unitsAt s us else unitsAt s us := by
  unfold unitsAt
  rw [List.filter_cons]
  by_cases hs : u.symbolPath = s <;> simp [hs]

/-- The counter of a symbol path passes over units of other paths. -/
theorem ids_number {o : Origin} {ordinal : Nat} {before : List Text} {found : List Found}
    {units : List CodeUnit} (ho : o.scheme = .structural)
    (h : number o ordinal before found = .ok units) (s : Text) :
    (unitsAt s units).map (·.id) =
      CodeUnit.structuralIds o.filePath s (occurrences before s)
        ((unitsAt s units).map (·.token)) := by
  induction found generalizing ordinal before units with
  | nil =>
    cases h
    rfl
  | cons f rest ih =>
    obtain ⟨u, us, hu, hus, rfl⟩ := number_cons h
    obtain ⟨hid, -, hpath, -⟩ := unitOf_ok hu
    have htoken := (isUnitOf_unitOf hu).token
    have hrest := ih hus
    rw [unitsAt_cons]
    by_cases hs : u.symbolPath = s
    · have hcount : occurrences (f.symbolPath :: before) s = occurrences before s + 1 := by
        rw [occurrences, ← hpath, hs, List.count_cons_self]
        rfl
      have hfirst : u.id = CodeUnit.structuralId o.filePath (baseName o.filePath) u.token s
          (Integer.text (occurrences before s)) := by
        rw [eq_structuralId ho hid, htoken, ← hs, hpath]
        rfl
      rw [if_pos hs, List.map_cons, List.map_cons, hrest, hcount, hfirst, CodeUnit.structuralIds]
    · have hcount : occurrences (f.symbolPath :: before) s = occurrences before s :=
        List.count_cons_of_ne (fun heq => hs (hpath.trans heq))
      rw [if_neg hs, hrest, hcount]

/-- The structural ids of a symbol path in a file. -/
theorem Call.ids_of_path {c : Call} {units : List CodeUnit} (hc : c.settings.scheme = .structural)
    (h : c.result = .ok units) (s : Text) :
    (unitsAt s units).map (·.id) =
      CodeUnit.structuralIds c.filePath s 0 ((unitsAt s units).map (·.token)) := by
  rcases Call.result_ok h with ⟨-, rfl⟩ | ⟨language, parse, -, -, hnumber⟩
  · rfl
  · exact ids_number hc hnumber s

/-! ## Changes at other paths -/

/-- The symbol path and the token of a unit. -/
def names (u : CodeUnit) : Text × Text := (u.symbolPath, u.token)

/-- One more unit somewhere, of another symbol path. -/
inductive InsertedElsewhere (s : Text) : List (Text × Text) → List (Text × Text) → Prop
  | insert (before after : List (Text × Text)) {path token : Text} (h : path ≠ s) :
    InsertedElsewhere s (before ++ after) (before ++ (path, token) :: after)

/-- Units of other symbol paths are inserted and deleted, one after the other. To move or edit a unit
is to do both. -/
def ChangedElsewhere (s : Text) : List (Text × Text) → List (Text × Text) → Prop :=
  Relation.EqvGen (InsertedElsewhere s)

theorem filter_changedElsewhere {s : Text} {old new : List (Text × Text)}
    (h : ChangedElsewhere s old new) : old.filter (·.1 = s) = new.filter (·.1 = s) := by
  induction h with
  | rel old new hinserted =>
    obtain ⟨before, after, hpath⟩ := hinserted
    rw [List.filter_append, List.filter_append, List.filter_cons_of_neg (by simpa using hpath)]
  | refl => rfl
  | symm old new _ ih => exact ih.symm
  | trans old mid new _ _ ihfirst ihsecond => exact ihfirst.trans ihsecond

theorem tokens_unitsAt (s : Text) (units : List CodeUnit) :
    (unitsAt s units).map (·.token) = ((units.map names).filter (·.1 = s)).map (·.2) := by
  rw [List.filter_map, List.map_map]
  rfl

/-- Two extractions of a file whose units of a symbol path have the same tokens give these units the
same structural ids. This is so after any changes at other symbol paths. -/
theorem structural_ids_stay {c d : Call} {us vs : List CodeUnit}
    (hc : c.settings.scheme = .structural) (hd : d.settings.scheme = .structural)
    (hfile : c.filePath = d.filePath) (hus : c.result = .ok us) (hvs : d.result = .ok vs)
    (s : Text) :
    ((unitsAt s us).map (·.token) = (unitsAt s vs).map (·.token) →
      (unitsAt s us).map (·.id) = (unitsAt s vs).map (·.id)) ∧
    (ChangedElsewhere s (us.map names) (vs.map names) →
      (unitsAt s us).map (·.token) = (unitsAt s vs).map (·.token) ∧
        (unitsAt s us).map (·.id) = (unitsAt s vs).map (·.id)) := by
  have hids : (unitsAt s us).map (·.token) = (unitsAt s vs).map (·.token) →
      (unitsAt s us).map (·.id) = (unitsAt s vs).map (·.id) := by
    intro htokens
    rw [Call.ids_of_path hc hus, Call.ids_of_path hd hvs, hfile, htokens]
  refine ⟨hids, fun hchanged => ?_⟩
  have htokens : (unitsAt s us).map (·.token) = (unitsAt s vs).map (·.token) := by
    rw [tokens_unitsAt, tokens_unitsAt, filter_changedElsewhere hchanged]
  exact ⟨htokens, hids htokens⟩

namespace Sample

/-- A function whose name is one byte long. -/
def function (start : Int) (inner : List ParseTree) : ParseTree :=
  .node "function_definition" none ⟨start, start + 1, 0, 0⟩
    (.node "identifier" (some "name") ⟨start, start + 1, 0, 0⟩ [] :: inner)

/-- A file of functions that is extracted by structure. -/
def functions (source : Text) (units : List ParseTree) : Call where
  languages := Language.catalog
  grammars := fun _ => .ok fun bytes =>
    ⟨.node "module" none ⟨0, bytes.length, 0, 0⟩ units, false⟩
  settings := ⟨.structural, true⟩
  content := .inl source
  tag := "python"
  filePath := "a.py"

/-- Two functions of one name. -/
def twice : Call := functions "ff" [function 0 [], function 1 []]

/-- The same functions after one that has a function of this name inside, and with one between. -/
def amended : Call :=
  functions "gffhf" [function 0 [function 1 []], function 2 [], function 3 [], function 4 []]

end Sample

/-- Functions that come before and between two others leave their ids as they are. -/
theorem amended_ids_stay :
    ∃ us vs, Sample.twice.result = .ok us ∧ Sample.amended.result = .ok vs ∧
      us.map (·.symbolPath) = (["f", "f"] : List Text) ∧
      vs.map (·.symbolPath) = (["g", "g.f", "f", "h", "f"] : List Text) ∧
      (unitsAt "f" us).map (·.id) = (unitsAt "f" vs).map (·.id) := by
  have holds : Sample.twice.result.toOption.map (·.map names) =
      some ([("f", "f"), ("f", "f")] : List (Text × Text)) := by
    decide +kernel
  have hnew : Sample.amended.result.toOption.map (·.map names) =
      some ([("g", "g"), ("g.f", "f"), ("f", "f"), ("h", "h"), ("f", "f")] :
        List (Text × Text)) := by
    decide +kernel
  cases hus : Sample.twice.result with
  | error e =>
    rw [hus] at holds
    cases holds
  | ok us =>
    cases hvs : Sample.amended.result with
    | error e =>
      rw [hvs] at hnew
      cases hnew
    | ok vs =>
      rw [hus] at holds
      rw [hvs] at hnew
      have hus' : us.map names = ([("f", "f"), ("f", "f")] : List (Text × Text)) :=
        Option.some.inj holds
      have hvs' : vs.map names = ([("g", "g"), ("g.f", "f"), ("f", "f"), ("h", "h"), ("f", "f")] :
          List (Text × Text)) := Option.some.inj hnew
      have hpaths : ∀ units : List CodeUnit,
          units.map (·.symbolPath) = (units.map names).map (·.1) := by
        intro units
        rw [List.map_map]
        rfl
      have hchanged : ChangedElsewhere "f" (us.map names) (vs.map names) := by
        rw [hus', hvs']
        refine .trans _ ([("f", "f"), ("h", "h"), ("f", "f")] : List (Text × Text)) _ ?_ (.trans _
          ([("g", "g"), ("f", "f"), ("h", "h"), ("f", "f")] : List (Text × Text)) _ ?_ ?_)
        · exact .rel _ _ (.insert [("f", "f")] [("f", "f")] (by decide))
        · exact .rel _ _ (.insert [] [("f", "f"), ("h", "h"), ("f", "f")] (by decide))
        · exact .rel _ _ (.insert [("g", "g")] [("f", "f"), ("h", "h"), ("f", "f")] (by decide))
      refine ⟨us, vs, rfl, rfl, ?_, ?_, ?_⟩
      · rw [hpaths, hus']
        rfl
      · rw [hpaths, hvs']
        rfl
      · exact ((structural_ids_stay (c := Sample.twice) (d := Sample.amended) rfl rfl rfl hus hvs
          "f").2 hchanged).2

end Extract

end CodeAtlas
