import FieldMesh.Mesh.CaseTable
import FieldMesh.Mesh.Density
import FieldMesh.Mesh.Error

/-!
# Marching cubes

Every cell is closed on its own: the case of its corners tells which
triangles run through it, and each corner of a triangle lies where an edge
crosses the level. Triangles are flat and have vertices of their own.

* `crossing`: where an edge crosses the level;
* `cellFacets`: the triangles of a cell;
* `marchingCubes`: the surface of a region.
-/

namespace FieldMesh.Mesh

/-- Where the density crosses the level between two ends of an edge, as a
part of its length. Ends of nearly the same density are crossed halfway. -/
def crossing (first second level : Float32) : Float32 :=
  if (second - first).abs > 0.00001 then (level - first) / (second - first)
  else 0.5

/-- Where an edge of a cell crosses the level, as a part of its length. -/
def edgeCrossing (corners : Corners) (level : Float32) (e : Edge) : Float32 :=
  crossing corners[e.ends.1] corners[e.ends.2] level

/-- A flat triangle. -/
structure Facet where
  a : Vec3
  b : Vec3
  c : Vec3
  normal : Vec3
  deriving DecidableEq

/-- A triangle with the normal of its plane. -/
def Facet.ofCorners (a b c : Vec3) : Facet :=
  ⟨a, b, c, ((b - a).cross (c - a)).normalizeOrZero⟩

/-- The point at which an edge of a cell crosses the level. -/
def edgePoint (cell : Point) (corners : Corners) (level size : Float32)
    (e : Edge) : Vec3 :=
  let t := edgeCrossing corners level e
  ((cell + e.ends.1.offset).toVec3 + e.direction.toVec3.scale t).scale size

/-- The triangles of a cell. They run counter-clockwise as seen from where
the density is below the level. -/
def cellFacets (cell : Point) (corners : Corners) (level size : Float32) :
    List Facet :=
  let case := caseOf corners level
  let mask := crossingMask case
  if mask = 0 then []
  else
    let crossed (e : Edge) : Vec3 :=
      if mask.testBit e then edgePoint cell corners level size e
      else Vec3.zero
    (triangles case).map fun (i, j, k) =>
      .ofCorners (crossed i) (crossed k) (crossed j)

/-- Writes a flat triangle with vertices of its own. -/
def Buffers.addFacet (b : Buffers) (facet : Facet) : Except Fault Buffers := do
  let (i, b) ← b.addVertex facet.a facet.normal
  let (j, b) ← b.addVertex facet.b facet.normal
  let (k, b) ← b.addVertex facet.c facet.normal
  b.addTriangle i j k

/-- Writes the triangles of a cell. -/
def addCell (density : Density) (level size : Float32) (b : Buffers)
    (cell : Point) : Except Fault Buffers := do
  let corners ← density.corners cell
  (cellFacets cell corners level size).foldlM Buffers.addFacet b

/-- Writes the surface of a region into buffers of sufficient capacity.
Positions are relative to the region. -/
def marchingCubes (density : Density) (level scale : Float32) (b : Buffers) :
    Except MeshError Buffers := do
  let cells := density.lattice.cells
  checkCapacity b (Algorithm.marchingCubes.capacity cells)
  let size := cellSize scale cells
  (walk cells (addCell density level size) (.blank b.capacity)).mapError .fault

end FieldMesh.Mesh
