import CodeAtlas.File.SourcePath
import CodeAtlas.Sort
import CodeAtlas.Value.Basic

/-!
# Languages

How units are found in the parse trees of a language, and which file extensions belong to it.
-/

namespace CodeAtlas

/-- The rules of one language.

A node of a kind in `unitKinds` is a unit; one of a kind in `boundKinds` is a unit only right below
a node of a kind in `bindingParents`, which then names it. A kind in `bodyRequired` is no unit
without a `body` child. -/
structure Language where
  tag : Text
  grammar : Text
  unitKinds : List Text
  nameField : Option Text := some "name"
  searchField : Option Text := none
  identifierKinds : List Text := []
  boundKinds : List Text := []
  bindingParents : List Text := []
  bodyRequired : List Text := []
  fallbackToken : Text := "unknown_func"
  extensions : List Text := []
deriving DecidableEq, Repr

namespace Language

def scriptUnits : List Text := [
  "class_declaration", "function_declaration", "generator_function_declaration",
  "method_definition"]

def typedUnits : List Text := [
  "abstract_class_declaration", "class_declaration", "function_declaration",
  "generator_function_declaration", "method_definition"]

def methodUnits : List Text := [
  "class_declaration", "constructor_declaration", "method_declaration"]

/-- A language in which functions are also bound to variables. -/
def binding (tag : Text) (unitKinds extensions : List Text) : Language :=
  { tag, grammar := tag, unitKinds, extensions
    boundKinds := ["arrow_function", "function_expression"]
    bindingParents := ["variable_declarator"] }

/-- The languages known by their extensions. -/
def catalog : List Language := [
  { tag := "python", grammar := "python"
    unitKinds := ["class_definition", "function_definition"]
    fallbackToken := "unknown_python_func"
    extensions := [".py"] },
  binding "javascript" scriptUnits [".js", ".jsx", ".mjs", ".cjs"],
  binding "typescript" typedUnits [".ts"],
  binding "tsx" typedUnits [".tsx"],
  { tag := "java", grammar := "java", unitKinds := methodUnits, extensions := [".java"] },
  { tag := "c", grammar := "c", unitKinds := ["function_definition"]
    nameField := none
    searchField := some "declarator"
    identifierKinds := ["identifier"]
    extensions := [".c", ".h"] },
  { tag := "cpp", grammar := "cpp"
    unitKinds := ["class_specifier", "function_definition", "struct_specifier"]
    searchField := some "declarator"
    identifierKinds := ["identifier", "field_identifier", "operator_name", "destructor_name"]
    bodyRequired := ["class_specifier", "struct_specifier"]
    extensions := [".cpp", ".cc", ".cxx", ".hpp", ".hh"] },
  { tag := "csharp", grammar := "csharp", unitKinds := methodUnits, extensions := [".cs"] },
  { tag := "go", grammar := "go"
    unitKinds := ["function_declaration", "method_declaration"]
    extensions := [".go"] },
  { tag := "rust", grammar := "rust"
    unitKinds := ["enum_item", "function_item", "struct_item", "trait_item"]
    extensions := [".rs"] }]

/-- Names that stand for a set, in order. -/
def sortedNames (names : List Text) : Value :=
  .list ((sortBy (fun a b => !decide (b < a)) names).map .text)

/-- All that is known of a language. -/
def fields (l : Language) : Fields :=
  let optional (name : Option Text) : Value := (name.map .text).getD .null
  [("tag", .text l.tag),
   ("grammar", .text l.grammar),
   ("unit_kinds", sortedNames l.unitKinds),
   ("name_field", optional l.nameField),
   ("search_field", optional l.searchField),
   ("identifier_kinds", .list (l.identifierKinds.map .text)),
   ("bound_kinds", sortedNames l.boundKinds),
   ("binding_parents", sortedNames l.bindingParents),
   ("body_required", sortedNames l.bodyRequired),
   ("fallback_token", .text l.fallbackToken),
   ("extensions", .list (l.extensions.map .text))]

/-- The texts that a value lists. -/
def names (v : Value) : List Text := (v.elements.toOption.getD []).filterMap Value.text?

/-- The language that fields describe, with its tag as its grammar. Missing names are as for any
language, and missing lists are empty. -/
def ofFields (tag : Text) (fs : Fields) : Language :=
  let named (key : Text) : List Text := names ((fs.get? key).getD .null)
  let plain : Language := { tag, grammar := tag, unitKinds := named "unit_kinds" }
  { plain with
    nameField := ((fs.get? "name_field").map Value.text?).getD plain.nameField
    searchField := ((fs.get? "search_field").map Value.text?).getD plain.searchField
    identifierKinds := named "identifier_kinds"
    boundKinds := named "bound_kinds"
    bindingParents := named "binding_parents"
    bodyRequired := named "body_required"
    fallbackToken := ((fs.get? "fallback_token").bind Value.text?).getD plain.fallbackToken
    extensions := named "extensions" }

/-- The language with a tag. -/
def ofTag? (languages : List Language) (tag : Text) : Option Language :=
  languages.find? (·.tag == tag)

/-- All extensions of the catalog. -/
def allExtensions : List Text := catalog.flatMap (·.extensions)

/-- The tag of the language of a file, by its extension in lower case. -/
def ofFile? (filename : Text) : Option Text :=
  let ext := Text.lower (extension filename)
  (catalog.find? (·.extensions.contains ext)).map (·.tag)

end Language

end CodeAtlas
