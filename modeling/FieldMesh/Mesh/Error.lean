import FieldMesh.Formula.Basic
import FieldMesh.Mesh.Algorithm

/-!
# Errors of mesh generation

Why a request gives no mesh.
-/

namespace FieldMesh.Mesh

open FieldMesh.Formula

/-- The most cells along an axis. -/
def maxCells : Nat := 256

/-- Why there is no mesh. -/
inductive MeshError where
  | invalidCells (cells : UInt32)
  | invalidScale (scale : Float32)
  /-- The densities were sampled without the border that is read. -/
  | paddingRequired (algorithm : Algorithm)
  | bufferTooSmall (need supplied : Capacity)
  /-- A density has one parameter, the place. -/
  | unsupportedParameters (count : Nat)
  | formula (e : FormulaError)
  | fault (f : Fault)
  deriving DecidableEq

/-- The wording of an error. -/
def MeshError.message : MeshError → String
  | .invalidCells cells =>
    "Invalid voxel side " ++ toString cells.toNat ++ " (expected 1..=" ++
      toString maxCells ++ ")"
  | .invalidScale scale =>
    "Invalid grid scale " ++ Decimal.formulaText scale
  | .paddingRequired algorithm =>
    algorithm.title ++ " needs a gradient-padded density grid"
  | .bufferTooSmall need supplied =>
    "Mesh buffers too small: need " ++ toString need.vertices ++
      " vertices / " ++ toString need.indices ++ " indices, have " ++
      toString supplied.vertices ++ " / " ++ toString supplied.indices
  | .unsupportedParameters count =>
    "Density program reads " ++ toString count ++
      " parameters, at most 1 (the sample position) is supported"
  | .formula e => "Formula error: " ++ e.message
  | .fault f => f.message

/-- Refuses buffers that hold less than needed. -/
def checkCapacity (b : Buffers) (need : Capacity) : Except MeshError Unit :=
  if b.capacity.holds need then .ok ()
  else .error (.bufferTooSmall need b.capacity)

end FieldMesh.Mesh
