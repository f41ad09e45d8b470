import FieldMesh.Mesh.Buffers
import FieldMesh.Proofs.Lists

/-!
# Writing into buffers

Vertices and triangles go after those that are written already, and the rest
of the buffers stays as it is.

* `Buffers.Grows`: what writing some vertices and some indices does;
* `Buffers.addVertex_eq`, `Buffers.addTriangle_eq`: each writes one, as long
  as there is room.
-/

namespace FieldMesh.Mesh

theorem Capacity.holds_iff {room need : Capacity} :
    room.holds need = true ↔
      need.vertices ≤ room.vertices ∧ need.indices ≤ room.indices := by
  simp [holds]

namespace Buffers

/-- The written parts lie within the buffers. -/
structure InOrder (b : Buffers) : Prop where
  vertices : b.vertexCount ≤ b.positions.size
  normals : b.normals.size = b.positions.size
  indices : b.indexCount ≤ b.indices.size

theorem inOrder_blank (c : Capacity) : (blank c).InOrder where
  vertices := Nat.zero_le _
  normals := by simp [blank]
  indices := Nat.zero_le _

/-- `Grows b vertices indices b'`: vertices with normals, and indices, are
written after what is written in `b`, and the rest stays as it is. -/
structure Grows (b : Buffers) (vertices : List (Vec3 × Vec3))
    (indices : List UInt32) (b' : Buffers) : Prop where
  inOrder : b'.InOrder
  capacity : b'.capacity = b.capacity
  vertexCount : b'.vertexCount = b.vertexCount + vertices.length
  indexCount : b'.indexCount = b.indexCount + indices.length
  positions : b'.writtenPositions = b.writtenPositions ++ vertices.map Prod.fst
  normals : b'.writtenNormals = b.writtenNormals ++ vertices.map Prod.snd
  indices : b'.writtenIndices = b.writtenIndices ++ indices

namespace Grows

variable {b b' b'' : Buffers} {vertices vertices' : List (Vec3 × Vec3)}
  {indices indices' : List UInt32}

theorem refl (inOrder : b.InOrder) : Grows b [] [] b where
  inOrder := inOrder
  capacity := rfl
  vertexCount := rfl
  indexCount := rfl
  positions := (List.append_nil _).symm
  normals := (List.append_nil _).symm
  indices := (List.append_nil _).symm

theorem trans (first : Grows b vertices indices b')
    (second : Grows b' vertices' indices' b'') :
    Grows b (vertices ++ vertices') (indices ++ indices') b'' where
  inOrder := second.inOrder
  capacity := second.capacity.trans first.capacity
  vertexCount := by
    rw [second.vertexCount, first.vertexCount, List.length_append]
    omega
  indexCount := by
    rw [second.indexCount, first.indexCount, List.length_append]
    omega
  positions := by
    rw [second.positions, first.positions, List.map_append, List.append_assoc]
  normals := by
    rw [second.normals, first.normals, List.map_append, List.append_assoc]
  indices := by
    rw [second.indices, first.indices, List.append_assoc]

end Grows

/-- A vertex gets the number of those before it, as long as there is room. -/
theorem addVertex_eq {b : Buffers} (inOrder : b.InOrder) (position normal : Vec3) :
    (b.vertexCount < b.capacity.vertices ∧
      ∃ b', b.addVertex position normal = .ok (.ofNat b.vertexCount, b') ∧
        b.Grows [(position, normal)] [] b') ∨
    (b.capacity.vertices ≤ b.vertexCount ∧
      b.addVertex position normal =
        .error (.vertexCapacity b.capacity.vertices)) := by
  unfold addVertex
  simp only
  split
  · next room =>
    have room' : b.vertexCount < b.normals.size := inOrder.normals ▸ room
    refine .inl ⟨room, _, rfl, ?_⟩
    constructor
    · refine ⟨?_, ?_, inOrder.indices⟩
      · simp only [Array.size_setIfInBounds]
        omega
      · simp only [Array.size_setIfInBounds]
        exact inOrder.normals
    · simp only [capacity, Array.size_setIfInBounds]
    · rfl
    · rfl
    · simp only [writtenPositions, Array.toList_setIfInBounds]
      exact take_set_succ (by simpa using room) position
    · simp only [writtenNormals, Array.toList_setIfInBounds]
      exact take_set_succ (by simpa using room') normal
    · exact (List.append_nil _).symm
  · next full => exact .inr ⟨Nat.not_lt.mp full, rfl⟩

/-- A triangle takes three indices, as long as there is room. -/
theorem addTriangle_eq {b : Buffers} (inOrder : b.InOrder) (i j k : UInt32) :
    (b.indexCount + 3 ≤ b.capacity.indices ∧
      ∃ b', b.addTriangle i j k = .ok b' ∧ b.Grows [] [i, j, k] b') ∨
    (b.capacity.indices < b.indexCount + 3 ∧
      b.addTriangle i j k = .error (.indexCapacity b.capacity.indices)) := by
  unfold addTriangle
  simp only
  split
  · next room =>
    refine .inl ⟨room, _, rfl, ?_⟩
    constructor
    · refine ⟨inOrder.vertices, inOrder.normals, ?_⟩
      simpa only [Array.size_setIfInBounds] using room
    · simp only [capacity, Array.size_setIfInBounds]
    · rfl
    · rfl
    · exact (List.append_nil _).symm
    · exact (List.append_nil _).symm
    · simp only [writtenIndices, Array.toList_setIfInBounds]
      have length : b.indices.toList.length = b.indices.size := rfl
      rw [take_set_succ (by simp only [List.length_set]; omega),
        take_set_succ (by simp only [List.length_set]; omega),
        take_set_succ (by omega), List.append_assoc, List.append_assoc]
      rfl
  · next full => exact .inr ⟨Nat.not_le.mp full, rfl⟩

end Buffers

end FieldMesh.Mesh
