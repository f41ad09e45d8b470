import FieldMesh.Mesh.Lattice
import FieldMesh.Program.Machine

/-!
# Faults of mesh generation

What would stop the generation of a mesh without a refusal. Requests that are
in order only meet a fault of the program itself.
-/

namespace FieldMesh.Mesh

/-- Why the generation of a mesh stops. -/
inductive Fault where
  /-- A lattice that is too large to be stored. -/
  | size (fault : Lattice.SizeFault)
  /-- A point that is not stored. -/
  | outside (point : Point) (side : Nat)
  /-- More vertices than the buffers hold. -/
  | vertexCapacity (limit : Nat)
  /-- More indices than the buffers hold. -/
  | indexCapacity (limit : Nat)
  /-- A vertex whose number plus one does not fit 32 bits. -/
  | vertexNumber
  /-- A fault of the program that is sampled. -/
  | program (fault : Program.Fault)
  deriving DecidableEq, Repr

/-- The wording of a fault. -/
def Fault.message : Fault → String
  | .size .side => "lattice side does not fit 32 bits"
  | .size .volume => "lattice volume does not fit 64 bits"
  | .size .storage => "lattice does not fit the address space"
  | .outside point side =>
    point.text ++ " outside grid of side " ++ toString side
  | .vertexCapacity limit =>
    "vertex capacity " ++ toString limit ++ " exceeded"
  | .indexCapacity limit =>
    "index capacity " ++ toString limit ++ " exceeded"
  | .vertexNumber => "attempt to add with overflow"
  | .program fault => fault.message

end FieldMesh.Mesh
