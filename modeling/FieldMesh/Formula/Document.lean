import FieldMesh.Formula.Basic
import FieldMesh.Json.Decode
import FieldMesh.Json.Writer

/-!
# Formulas in documents

A formula is stored with its text, its parameters as they are spelled, and
its variables. Trees that were kept are not stored. A file with the extension
`json` has such a document; any other file has the bare text of a formula.
-/

namespace FieldMesh.Formula

/-- The document of a variable. -/
def Variable.toJson (v : Variable) : Json :=
  .ofFields [
    ("name", .ofText v.name),
    ("kind", .ofText v.kind.documentName),
    ("value", .ofVector v.value),
    ("sub_formula", .ofText v.text)]

/-- The variable of a document, with its name as it is spelled there. -/
def Variable.ofJson? (j : Json) : Option Variable := do
  let [name, kind, value, text] ←
    j.members? ["name", "kind", "value", "sub_formula"] | none
  let kind ← Json.required Json.choice? kind
  return {
    name := ← Json.required Json.text? name
    kind := ← VariableKind.ofDocumentName? kind
    value := ← Json.optional Vec3.zero Json.vector? value
    text := ← Json.optional "" Json.text? text
    kept := none }

/-- The document of a table. -/
def VariableTable.toJson (table : VariableTable) : Json :=
  .list (table.entries.map Variable.toJson)

/-- The table of a document. Of variables whose names differ in case only,
the last one counts. -/
def VariableTable.ofJson? (j : Json) : Option VariableTable :=
  (Json.list? Variable.ofJson? j).map VariableTable.ofList

/-- The document of a formula. -/
def toJson (formula : Formula) : Json :=
  .ofFields [
    ("source", .ofText formula.source),
    ("parameters", .list (formula.parameters.map .ofText)),
    ("variables", formula.table.toJson)]

/-- The formula of a document. -/
def ofJson? (j : Json) : Option Formula := do
  let [source, parameters, table] ←
    j.members? ["source", "parameters", "variables"] | none
  return {
    source := ← Json.required Json.text? source
    parameters := ← Json.optional [] (Json.list? Json.text?) parameters
    table := ← Json.optional .empty VariableTable.ofJson? table }

/-- Whether two formulas say the same. -/
def same (formula other : Formula) : Bool :=
  formula.source == other.source && formula.parameters == other.parameters &&
    formula.table.same other.table

/-! ## Files -/

/-- Why a file gives no formula. -/
inductive LoadError where
  /-- The file cannot be read. -/
  | unreadable
  /-- The file is no document of a formula. -/
  | malformed
  deriving DecidableEq, Repr

/-- The extension of a file name: what follows the last point, unless the
name starts with that point. -/
def extension? (path : String) : Option String :=
  let name := (path.toList.reverse.takeWhile (· != '/')).reverse
  let after := name.reverse.takeWhile (· != '.')
  if after.length + 1 < name.length ∧ name ≠ ['.', '.'] then
    some (String.ofList after.reverse)
  else none

/-- The formula that a file with this name and text holds. -/
def ofFile (name text : String) : Except LoadError Formula :=
  if extension? name = some "json" then
    match (Json.read? text).bind ofJson? with
    | some formula => .ok formula
    | none => .error .malformed
  else .ok { source := String.ofList (Text.trim text.toList) }

/-- The text of the file that stores a formula. -/
def fileText (formula : Formula) : String := formula.toJson.pretty

end FieldMesh.Formula
