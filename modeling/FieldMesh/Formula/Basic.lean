import FieldMesh.Formula.Translation

/-!
# Formulas

A formula is a text with the names of its parameters and the variables that
it can use.

* `Formula.compile`: its program, if its text and the sub-formulas it uses
  are in order. Names that it uses without having declared them are declared
  on the way.
-/

namespace FieldMesh

open Formula in
/-- An editable formula. -/
structure Formula where
  source : String
  /-- The names of the parameters, in the order of their values. -/
  parameters : List String := []
  table : VariableTable := .empty

namespace Formula

open FieldMesh.Text

/-- Why a formula has no program. -/
inductive FormulaError where
  | parse (e : ParseError)
  | compile (e : CompileError)
  deriving DecidableEq, Repr

/-- The wording of an error. -/
def FormulaError.message : FormulaError → String
  | .parse e => "Parse error: " ++ e.message
  | .compile e => "Compile error: " ++ e.message

/-- Names the parameters, in lower case. -/
def setParameters (formula : Formula) (names : List String) : Formula :=
  { formula with parameters := names.map lower }

/-- Puts a variable in. -/
def setVariable (formula : Formula) (v : Variable) : Formula :=
  { formula with table := formula.table.set v }

/-- Drops the variables that are not among some names. -/
def prune (formula : Formula) (used : Names) : Formula :=
  { formula with table := formula.table.retain used }

/-- A program with the names of the variables that it depends on. -/
structure Compiled where
  program : Program
  used : Names

/-- Compiles a formula. A blank text stands for zero. The second part is the
formula with what it has declared. -/
def compile (formula : Formula) : Except FormulaError Compiled × Formula :=
  match parse formula.source with
  | .error e => (.error (.parse e), formula)
  | .ok none => (.ok ⟨.constant Vec3.zero, []⟩, formula)
  | .ok (some e) =>
    let (result, table) := translate formula.table formula.parameters e
    let compiled : Except CompileError Compiled := do
      let translation ← result
      return { program := ← translation.program, used := translation.used }
    (compiled.mapError .compile, { formula with table })

end Formula

end FieldMesh
