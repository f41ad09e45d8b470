import FieldMesh.Mesh.Buffers

/-!
# Algorithms

The two ways to find the surface in sampled densities.

* `Algorithm.padding`: which border it reads;
* `Algorithm.capacity`: buffers that always suffice.
-/

namespace FieldMesh.Mesh

/-- A way to find the surface. -/
inductive Algorithm where
  /-- Flat triangles in every cell, with vertices of their own. -/
  | marchingCubes
  /-- A vertex for every cell, shared by the quads around it. -/
  | dualContouring
  deriving DecidableEq, Repr

namespace Algorithm

/-- The border that is read. -/
def padding : Algorithm → Padding
  | .marchingCubes => .none
  | .dualContouring => .gradient

/-- The name in messages. -/
def title : Algorithm → String
  | .marchingCubes => "MarchingCubes"
  | .dualContouring => "DualContouring"

/-- The name in documents. -/
def documentName : Algorithm → String
  | .marchingCubes => "marching_cubes"
  | .dualContouring => "dual_contouring"

/-- The algorithm with a name in documents. -/
def ofDocumentName? (name : String) : Option Algorithm :=
  [marchingCubes, dualContouring].find? (·.documentName == name)

/-- The most triangles of one cell. -/
def trianglesPerCell : Nat := 5

/-- Buffers that suffice for a region. Marching cubes has at most five
triangles with vertices of their own in a cell. Dual contouring has at most
three quads of two triangles for a lattice point. -/
def capacity (algorithm : Algorithm) (cells : Nat) : Capacity :=
  match algorithm with
  | .marchingCubes =>
    let indices := cells * cells * cells * trianglesPerCell * 3
    ⟨indices, indices⟩
  | .dualContouring =>
    let points := Lattice.volume ⟨cells, .none⟩
    ⟨points * 7, points * 6 * 3⟩

end Algorithm

end FieldMesh.Mesh
