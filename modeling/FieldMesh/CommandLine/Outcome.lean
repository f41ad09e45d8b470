import FieldMesh.Files.Tree
import FieldMesh.Formula.Document
import FieldMesh.Mesh.Error

/-!
# Outcomes of commands

What a command prints, and how it ends: well, with an error, or stopped by a
fault of a program that it runs.
-/

namespace FieldMesh.CommandLine

open FieldMesh.Files FieldMesh.Formula FieldMesh.Mesh

/-- Why a command ends with an error. -/
inductive CommandError where
  | parse (e : ParseError)
  | formula (e : FormulaError)
  | mesh (e : MeshError)
  /-- A file of a formula that cannot be read or makes no sense. -/
  | loadFormula (file : String)
  | readRequest (file : String)
  | invalidRequest (file : String)
  /-- There is nothing to watch. -/
  | notFound (file : String)
  | writeFile (file : String)
  /-- A mesh that cannot be written. -/
  | exportMesh (fault : PathFault)
  deriving DecidableEq

/-- The wording of an error. -/
def CommandError.message : CommandError → String
  | .parse e => e.message
  | .formula e => e.message
  | .mesh e => e.message
  | .loadFormula file => "Failed to load formula " ++ file
  | .readRequest file => "Failed to read request " ++ file
  | .invalidRequest file => "Invalid request " ++ file
  | .notFound file => "Formula file not found: " ++ file
  | .writeFile file => "Failed to write " ++ file
  | .exportMesh fault => "IO error: " ++ fault.message

/-- How a command ends. -/
inductive Ending where
  | done
  | failed (e : CommandError)
  /-- A fault of a program that was run. -/
  | stopped (f : Mesh.Fault)
  deriving DecidableEq

/-- The number that tells how a command has ended. -/
def Ending.code : Ending → Nat
  | .done => 0
  | .failed _ => 1
  | .stopped _ => 101

/-- The number for arguments that are not in order. -/
def refusedCode : Nat := 2

/-- What a command has printed, and how it has ended. -/
structure Outcome where
  /-- The lines that were printed. -/
  lines : List String
  ending : Ending
  deriving DecidableEq

/-- A command that ends well. -/
def Outcome.done (lines : List String) : Outcome := ⟨lines, .done⟩

/-- A command that ends with an error of a mesh, or is stopped by a fault. -/
def Ending.ofMeshError : MeshError → Ending
  | .fault f => .stopped f
  | e => .failed (.mesh e)

end FieldMesh.CommandLine
