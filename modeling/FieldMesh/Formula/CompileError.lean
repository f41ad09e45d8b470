import FieldMesh.Formula.ParseError
import FieldMesh.Program.Basic

/-!
# Compile errors

Why an expression has no program, and the wording of each reason.
-/

namespace FieldMesh.Formula

open FieldMesh.Program (ProgramFault)

/-- Why an expression cannot be compiled. -/
inductive CompileError where
  /-- A call of a function that does not exist. -/
  | unknownFunction (name : String)
  /-- A call with a number of arguments that the function does not take. -/
  | wrongArgumentCount (name : String) (expected : List Nat) (got : Nat)
  /-- A sub-formula that refers to itself, maybe through others. -/
  | recursiveDefinition (name : String)
  /-- A sub-formula whose text is malformed. -/
  | invalidSubFormula (name : String) (reason : ParseError)
  /-- A sub-formula without text. -/
  | emptySubFormula (name : String)
  | tooManyParameters (count : Nat)
  | tooManySubFormulas
  /-- Instructions that are no program. -/
  | invalidProgram (reason : ProgramFault)
  deriving DecidableEq, Repr

/-- Numbers with "or" between them. -/
def alternatives (counts : List Nat) : String :=
  String.intercalate " or " (counts.map fun n : Nat => toString n)

/-- The wording of an error. -/
def CompileError.message : CompileError → String
  | .unknownFunction name => "Unknown function " ++ name
  | .wrongArgumentCount name expected got =>
    "Function " ++ name ++ " expects " ++ alternatives expected ++
      " arguments, got " ++ toString got
  | .recursiveDefinition name => "Recursive definition of " ++ name
  | .invalidSubFormula name reason =>
    "Invalid sub-formula " ++ name ++ ": " ++ reason.message
  | .emptySubFormula name => "Sub-formula " ++ name ++ " is empty"
  | .tooManyParameters count =>
    "Too many parameters: " ++ toString count ++ " (maximum 256)"
  | .tooManySubFormulas => "Too many sub-formulas (maximum 255)"
  | .invalidProgram reason => "Invalid program: " ++ reason.message

end FieldMesh.Formula
