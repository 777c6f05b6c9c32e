import CodeAtlas.Proofs.Pass.Effect

/-!
# Keys of skipped files

A full pass keeps what is stored for the files that it has skipped, and tells from a key alone
whether it belongs to one of them. Files of known languages do not end in a colon, so that a key
begins like those of a file only if the file is its own or the two paths have `::` in them:

    CodeUnit.keyInFiles u.key files = true ↔
      u.filePath ∈ files ∨ ∃ file ∈ files, u.Resembles file            (keyInFiles_of_languages)

So units of a file that is gone stay if a file was skipped that their key resembles
(`gone_unit_kept`).
-/

namespace CodeAtlas

namespace CodeUnit

/-- **Keys of files of known languages.** A key begins like those of some files exactly if its file
is among them or it resembles one of them, and so exactly if its file is among them where no path
has `::` in it. -/
theorem keyInFiles_of_languages {u : CodeUnit} {files : List Text}
    (hu : (Language.ofFile? u.filePath).isSome = true)
    (hf : ∀ file ∈ files, (Language.ofFile? file).isSome = true) :
    (keyInFiles u.key files = true ↔ u.filePath ∈ files ∨ ∃ file ∈ files, u.Resembles file) ∧
      (¬ colons <:+: u.filePath.toList → (∀ file ∈ files, ¬ colons <:+: file.toList) →
        (keyInFiles u.key files = true ↔ u.filePath ∈ files)) := by
  have hcolon := Language.noColon_of_ofFile? hu
  have hcolons : ∀ file ∈ files, file.toList.getLast? ≠ some (.char ':') :=
    fun file hfile => Language.noColon_of_ofFile? (hf file hfile)
  exact ⟨keyInFiles_iff hcolon hcolons, fun hmark hmarks =>
    keyInFiles_key ⟨hmark, hcolon⟩ fun file hfile => ⟨hmarks file hfile, hcolons file hfile⟩⟩

end CodeUnit

namespace Pass

namespace Sample

/-- The only unit of a file with one function. -/
def unitIn (file : Text) : CodeUnit :=
  ⟨file ++ "_unknown_python_func_0", file, file, "python", "unknown_python_func",
    "unknown_python_func", "f", 0, ⟨0, 1, 0, 0⟩⟩

/-- The units that extraction finds in a file with one function. -/
def unitsIn (file : Text) : Except Extract.Error (List CodeUnit) :=
  Extract.extractBytes Language.catalog grammars ⟨.ordinal, true⟩ [0x66] "python" file

/-- The project `a` with one file, whose name has `::` in it, after a full pass. -/
def marked : Workspace Unit :=
  (Job.full.run (indexer "a") { workspace (.fresh (.text "code")) with
    disk := ⟨.folder [("a", .folder [("m.py::n.py", .file [0x66])])], [], [], []⟩ }).2

/-- The same with another file instead, which is no text. -/
def replaced : Workspace Unit :=
  { marked with disk := ⟨.folder [("a", .folder [("m.py", .file [0xff])])], [], [], []⟩ }

end Sample

/-- The key of a unit below `m.py::` begins like those of `m.py`, that of a unit of `n.py` does not. -/
theorem keyInFiles_below_and_beside :
    CodeUnit.keyInFiles (Sample.unitIn "m.py::n.py").key ["m.py"] = true ∧
      CodeUnit.keyInFiles (Sample.unitIn "n.py").key ["m.py"] = false := by
  have hfiles : ∀ file ∈ (["m.py"] : List Text), (Language.ofFile? file).isSome = true := by
    decide +kernel
  obtain ⟨hbelow, -⟩ := CodeUnit.keyInFiles_of_languages (u := Sample.unitIn "m.py::n.py")
    (by decide +kernel) hfiles
  obtain ⟨-, hbeside⟩ := CodeUnit.keyInFiles_of_languages (u := Sample.unitIn "n.py")
    (by decide +kernel) hfiles
  refine ⟨hbelow.2 (Or.inr ⟨"m.py", List.mem_singleton_self _, .below "n.py" rfl⟩), ?_⟩
  rw [Bool.eq_false_iff]
  intro h
  exact absurd ((hbeside (by decide) (by decide)).1 h) (by decide)

/-- The key of the unit of `m.py::n.py` is taken for one of `m.py`. So when `m.py::n.py` is gone and
`m.py` cannot be parsed, a full pass keeps the unit and removes nothing. -/
theorem gone_unit_kept :
    (Sample.unitsIn "m.py::n.py" = .ok [Sample.unitIn "m.py::n.py"] ∧
      ¬ (CodeUnit.keyInFiles (Sample.unitIn "m.py::n.py").key ["m.py"] = true ↔
        (Sample.unitIn "m.py::n.py").filePath ∈ (["m.py"] : List Text))) ∧
    (Job.full.run (Sample.indexer "a") Sample.replaced).1.toOption.map (fun report =>
        (report.success, report.staleRemoved, report.skippedFiles.map (·.1))) =
          some (true, 0, (["m.py"] : List Text)) ∧
      (Job.full.run (Sample.indexer "a") Sample.replaced).2.client.points.map Point.file? =
        [some ("m.py::n.py" : Text)] := by
  decide +kernel

end Pass

end CodeAtlas
