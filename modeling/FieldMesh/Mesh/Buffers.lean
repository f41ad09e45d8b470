import FieldMesh.Mesh.Fault

/-!
# Mesh buffers

Vertices and triangles are written into buffers of a fixed capacity, from the
front. What lies past the written part stays zero, so that the whole store can
be handed on.

* `Buffers.addVertex`, `Buffers.addTriangle`: write at the front of the free
  part, up to the capacity;
* `Buffers.moveVertex`: changes a vertex that is written;
* `Buffers.writtenPositions`, `Buffers.writtenIndices`: the written part.
-/

namespace FieldMesh.Mesh

/-- How much buffers can hold. -/
structure Capacity where
  vertices : Nat
  indices : Nat
  deriving DecidableEq, Repr

/-- Whether a capacity is at least another one. -/
def Capacity.holds (room need : Capacity) : Bool :=
  need.vertices ≤ room.vertices && need.indices ≤ room.indices

/-- Positions, normals and triangles of a mesh. -/
structure Buffers where
  positions : Array Vec3 := #[]
  normals : Array Vec3 := #[]
  /-- The corners of the triangles, three for each. -/
  indices : Array UInt32 := #[]
  /-- The vertices that are written. -/
  vertexCount : Nat := 0
  /-- The indices that are written. -/
  indexCount : Nat := 0
  deriving DecidableEq

namespace Buffers

/-- Buffers of a capacity, with nothing written. -/
def blank (capacity : Capacity) : Buffers where
  positions := .replicate capacity.vertices Vec3.zero
  normals := .replicate capacity.vertices Vec3.zero
  indices := .replicate capacity.indices 0

/-- How much the buffers can hold. -/
def capacity (b : Buffers) : Capacity := ⟨b.positions.size, b.indices.size⟩

theorem capacity_blank (c : Capacity) : (blank c).capacity = c := by
  simp [capacity, blank]

/-- The triangles that are written. -/
def triangleCount (b : Buffers) : Nat := b.indexCount / 3

/-- Whether there is no triangle. -/
def isEmpty (b : Buffers) : Bool := b.indexCount == 0

/-! ## Writing -/

/-- Writes a vertex and gives its index. -/
def addVertex (b : Buffers) (position normal : Vec3) :
    Except Fault (UInt32 × Buffers) :=
  let index := b.vertexCount
  if index < b.positions.size then
    .ok (.ofNat index, { b with
      positions := b.positions.setIfInBounds index position
      normals := b.normals.setIfInBounds index normal
      vertexCount := index + 1 })
  else .error (.vertexCapacity b.positions.size)

/-- Writes a triangle. -/
def addTriangle (b : Buffers) (i j k : UInt32) : Except Fault Buffers :=
  let place := b.indexCount
  if place + 3 ≤ b.indices.size then
    .ok { b with
      indices := ((b.indices.setIfInBounds place i).setIfInBounds
        (place + 1) j).setIfInBounds (place + 2) k
      indexCount := place + 3 }
  else .error (.indexCapacity b.indices.size)

/-- Moves a vertex that is written. -/
def moveVertex (b : Buffers) (index : UInt32) (position normal : Vec3) :
    Buffers :=
  { b with
    positions := b.positions.setIfInBounds index.toNat position
    normals := b.normals.setIfInBounds index.toNat normal }

/-! ## The written part -/

/-- The written positions. -/
def writtenPositions (b : Buffers) : List Vec3 :=
  b.positions.toList.take b.vertexCount

/-- The written normals. -/
def writtenNormals (b : Buffers) : List Vec3 :=
  b.normals.toList.take b.vertexCount

/-- The written indices. -/
def writtenIndices (b : Buffers) : List UInt32 :=
  b.indices.toList.take b.indexCount

/-! ## Bytes -/

/-- The bytes of a word, the lowest first. -/
def wordBytes (w : UInt32) : List UInt8 :=
  [w.toUInt8, (w >>> 8).toUInt8, (w >>> 16).toUInt8, (w >>> 24).toUInt8]

/-- The bytes of a vector. -/
def vectorBytes (v : Vec3) : List UInt8 :=
  wordBytes v.x.toBits ++ wordBytes v.y.toBits ++ wordBytes v.z.toBits

/-- The bytes of all positions, written or not. -/
def positionBytes (b : Buffers) : List UInt8 :=
  b.positions.toList.flatMap vectorBytes

/-- The bytes of all normals, written or not. -/
def normalBytes (b : Buffers) : List UInt8 :=
  b.normals.toList.flatMap vectorBytes

/-- The bytes of all indices, written or not. -/
def indexBytes (b : Buffers) : List UInt8 :=
  b.indices.toList.flatMap wordBytes

end Buffers

end FieldMesh.Mesh
