import FieldMesh.Json.Reader
import FieldMesh.Json.Decode
import FieldMesh.Json.Writer
import FieldMesh.Mesh.Error

/-!
# Requests

What region to mesh, and how.

* `Request.validate`: refuses what cannot be meshed;
* `Request.toJson`, `Request.ofJson?`: requests as documents, in which every
  field may be missing.
-/

namespace FieldMesh.Mesh

/-- A request for the mesh of a region. -/
structure Request where
  /-- The least corner of the region. -/
  origin : Vec3 := Vec3.zero
  /-- The width of the region along every axis. -/
  scale : Float32 := 1.0
  /-- The cells along every axis. -/
  cells : UInt32 := 16
  algorithm : Algorithm := .marchingCubes
  /-- The density at the surface. -/
  level : Float32 := 0.0
  /-- Whether dual contouring moves vertices onto the surface. -/
  smooth : Bool := false
  /-- The step of the differences that normals come from. -/
  epsilon : Float32 := 0.01
  deriving DecidableEq

namespace Request

/-- The lattice to sample. -/
def lattice (r : Request) : Lattice := ⟨r.cells.toNat, r.algorithm.padding⟩

/-- Buffers that always suffice. -/
def capacity (r : Request) : Capacity := r.algorithm.capacity r.cells.toNat

/-- Refuses a number of cells that is not from 1 to 256, then a width that is
not finite and positive. -/
def validate (r : Request) : Except MeshError Unit :=
  if r.cells = 0 ∨ maxCells < r.cells.toNat then
    .error (.invalidCells r.cells)
  else if r.scale.isFinite && r.scale > 0.0 then .ok ()
  else .error (.invalidScale r.scale)

/-! ## Documents -/

/-- The names of the fields in documents. -/
def fieldNames : List String :=
  ["origin", "scale", "voxel_side", "algorithm", "iso_level", "smooth",
    "normal_epsilon"]

/-- The document of a request. -/
def toJson (r : Request) : Json :=
  .ofFields (fieldNames.zip [
    .ofVector r.origin,
    .ofFloat r.scale,
    .ofNat r.cells.toNat,
    .ofText r.algorithm.documentName,
    .ofFloat r.level,
    .bool r.smooth,
    .ofFloat r.epsilon])

/-- The request of a document. -/
def ofJson? (j : Json) : Option Request := do
  let [origin, scale, cells, algorithm, level, smooth, epsilon] ←
    j.members? fieldNames | none
  let usual : Request := {}
  let algorithm? (j : Json) := j.choice?.bind Algorithm.ofDocumentName?
  let cells? (j : Json) := (j.natural? UInt32.size).map UInt32.ofNat
  return {
    origin := ← Json.optional usual.origin Json.vector? origin
    scale := ← Json.optional usual.scale Json.float? scale
    cells := ← Json.optional usual.cells cells? cells
    algorithm := ← Json.optional usual.algorithm algorithm? algorithm
    level := ← Json.optional usual.level Json.float? level
    smooth := ← Json.optional usual.smooth Json.bool? smooth
    epsilon := ← Json.optional usual.epsilon Json.float? epsilon }

/-- The request of the text of a document. -/
def ofText? (text : String) : Option Request :=
  (Json.read? text).bind ofJson?

end Request

end FieldMesh.Mesh
