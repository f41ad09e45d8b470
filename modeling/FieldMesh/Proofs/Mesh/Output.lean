import FieldMesh.Mesh.Generation
import FieldMesh.Proofs.Mesh.MarchingCubes
import FieldMesh.Proofs.Mesh.QuadRun
import FieldMesh.Proofs.Mesh.UnusedRoom
import FieldMesh.Proofs.Program.Validation

/-!
# Meshes are well formed

Whatever is sampled for a request that is in order, its surface fits into
buffers of the capacity that is announced for it.

* `Buffers.Complete`: triangles use all vertices that are written, and nothing
  else; the rest is zero;
* `marchingCubes_complete`: there is always a surface, with vertices in the
  order of the triangles;
* `ends_dualContouring`: there is one unless the program has no density at a
  neighbour of some position;
* **main result**: `extract_complete`.
-/

namespace FieldMesh.Mesh

/-! ## Well-formed buffers -/

/-- Buffers that can be handed on. The room is kept and not exceeded. The
indices are those of triangles between written vertices, whose numbers fit into
32 bits and are all used. The rest is zero. -/
structure Buffers.Complete (b : Buffers) (room : Capacity) : Prop where
  capacity : b.capacity = room
  vertices : b.vertexCount ≤ room.vertices
  indices : b.indexCount ≤ room.indices
  numbers : b.vertexCount < UInt32.size
  triangles : 3 ∣ b.indexCount
  inside : ∀ i ∈ b.writtenIndices, i.toNat < b.vertexCount
  used : ∀ v < b.vertexCount, ∃ i ∈ b.writtenIndices, i.toNat = v
  spare : b.Spare

theorem Buffers.InOrder.le_capacity {b : Buffers} (inOrder : b.InOrder)
    {room : Capacity} (same : b.capacity = room) :
    b.vertexCount ≤ room.vertices ∧ b.indexCount ≤ room.indices := by
  subst same
  exact ⟨inOrder.vertices, inOrder.indices⟩

/-! ## Marching cubes -/

/-- The most cells give numbers of 32 bits. -/
theorem fits_of_cells {cells : Nat} (few : cells ≤ maxCells) :
    3 * (5 * (cells * cells * cells)) < UInt32.size ∧
      Lattice.volume ⟨cells, .none⟩ < UInt32.size := by
  have cube {n m : Nat} (le : n ≤ m) : n * n * n ≤ m * m * m :=
    Nat.mul_le_mul (Nat.mul_le_mul le le) le
  have most := cube few
  have more : (cells + 1) * (cells + 1) * (cells + 1) ≤ _ :=
    cube (Nat.succ_le_succ few)
  have volume : Lattice.volume ⟨cells, .none⟩ =
      (cells + 1) * (cells + 1) * (cells + 1) := rfl
  rw [volume]
  simp only [maxCells] at most more
  simp only [UInt32.size]
  omega

/-- Marching cubes always has a surface. Its indices count up, and the
vertices of a triangle have one normal. -/
theorem marchingCubes_complete {d : Density} {b : Buffers}
    (few : d.lattice.cells ≤ maxCells)
    (room : b.capacity.holds
      (Algorithm.marchingCubes.capacity d.lattice.cells) = true)
    (level scale : Float32) :
    ∃ out, marchingCubes d level scale b = .ok out ∧
      out.Complete b.capacity ∧
      out.writtenIndices.map UInt32.toNat = List.range out.indexCount ∧
      ∀ t, 3 * t < out.indexCount → ∀ j < 3,
        out.writtenNormals[3 * t + j]? = out.writtenNormals[3 * t]? := by
  obtain ⟨out, made, grows⟩ := marchingCubes_eq room level scale
  let surface := surfaceTriangles d.lattice.cells (d.below level)
  have length : surface.length ≤ _ := length_surfaceTriangles _ _
  obtain ⟨fits, -⟩ := fits_of_cells few
  obtain ⟨vertices, indices, written⟩ :=
    @Buffers.Grows.facets _ _ surface _ _ grows
  have numbers : out.writtenIndices.map UInt32.toNat =
      List.range out.indexCount := by
    rw [written, indices, List.map_map]
    refine (List.map_congr_left fun n member => ?_).trans (List.map_id _)
    have small := List.mem_range.mp member
    exact UInt32.toNat_ofNat_of_lt' (by omega)
  -- the indices count up, so that no vertex is left out
  have mem (v : Nat) : (∃ i ∈ out.writtenIndices, i.toNat = v) ↔
      v < out.vertexCount := by
    rw [← List.mem_map, numbers, List.mem_range, indices, vertices]
  obtain ⟨roomy, roomy'⟩ := grows.inOrder.le_capacity rfl
  have kept : out.capacity = b.capacity :=
    grows.capacity.trans (Buffers.capacity_blank _)
  refine ⟨out, made, ⟨kept, kept ▸ roomy, kept ▸ roomy', by omega, ⟨_, indices⟩,
    fun i member => (mem _).mp ⟨i, member, rfl⟩, fun v => (mem v).mpr,
    marchingCubes_spare made⟩, numbers, fun t _ j three => ?_⟩
  have normals : out.writtenNormals =
      (surface.map (d.facet level (cellSize scale d.lattice.cells))).flatMap
        fun facet => List.replicate 3 facet.normal := by
    rw [grows.normals, List.map_flatMap]
    rfl
  have first : 3 * t = 3 * t + 0 := rfl
  rw [normals, getElem?_flatMap_replicate _ 3 _ three, first,
    getElem?_flatMap_replicate _ 3 _ (by decide)]

/-! ## Dual contouring -/

/-- A program of at most one parameter only lacks a density where noise is not
defined. -/
theorem undefined_of_densityAt {program : Program}
    (few : program.parameterCount ≤ 1) {place : Vec3} {fault : Program.Fault}
    (failed : densityAt program place = .error fault) :
    fault = .noiseUndefined ∧ program.eval [place] = .error .noiseUndefined := by
  have enough : program.parameterCount ≤ [place].length := few
  rcases (Program.foretold program).result {} enough with ⟨v, value⟩ | undefined
  · rw [densityAt, Program.eval, value] at failed
    cases failed
  · rw [densityAt, Program.eval, undefined] at failed
    cases failed
    exact ⟨rfl, undefined⟩

/-- In a region that is not too large, only a missing density hinders. -/
theorem density_of_hindrance {field : Field} {cells : Nat}
    (small : cells ≤ maxCells) {fault : Fault}
    (hindrance : Hindrance field cells fault) :
    ∃ position, ∃ near ∈ neighbours (field.origin + position) field.epsilon,
      ∃ f, fault = .program f ∧ densityAt field.program near = .error f := by
  cases hindrance with
  | vertexNumber many => exact absurd (fits_of_cells small).2 (Nat.not_lt.mpr many)
  | normal position faulty =>
    have ends := (ends_normalAt field.program (field.origin + position)
      field.epsilon).mapError Fault.program
    rw [← Field.normal, faulty] at ends
    obtain ⟨f, rfl, near, member, failed⟩ := ends
    exact ⟨position, near, member, f, rfl, failed⟩

/-- All vertices are corners of quads. -/
theorem mem_corners_of_vertexPoints {cells : Nat} {below : Point → Bool}
    {p : Point} (member : p ∈ vertexPoints cells below) :
    p ∈ (quadSurface cells below).flatMap triangleCorners := by
  obtain ⟨e, crossed, anchored⟩ := mem_vertexPoints.mp member
  obtain ⟨t, triangle, corner⟩ : ∃ t ∈ edgeTriangles below e,
      p ∈ triangleCorners t := mem_corners_edgeTriangles.mpr anchored
  exact List.mem_flatMap.mpr
    ⟨t, List.mem_flatMap.mpr ⟨e, crossed, triangle⟩, corner⟩

/-- A surface whose vertices are corners of its triangles. -/
theorem Surface.Holds.complete {field : Field} {cells : Nat} {room : Capacity}
    {place : Point → Vec3} {points : List Point}
    {ts : List (Point × Point × Point)} {s : Surface}
    (holds : s.Holds field cells room place points ts)
    (corners : ∀ p ∈ points, p ∈ ts.flatMap triangleCorners)
    (spare : s.buffers.Spare) : s.buffers.Complete room := by
  obtain ⟨vertices, indices⟩ := holds.inOrder.le_capacity holds.capacity
  refine ⟨holds.capacity, vertices, indices, holds.vertexCount ▸ holds.few,
    ⟨_, holds.indexCount⟩, fun i member => ?_, fun v below => ?_, spare⟩
  · obtain ⟨p, found⟩ := holds.named member
    rw [holds.vertexCount]
    exact (List.getElem?_eq_some_iff.mp found).1
  · rw [holds.vertexCount] at below
    have corner := corners points[v] (List.getElem_mem below)
    have written : some points[v] ∈
        s.buffers.writtenIndices.map (points[·.toNat]?) := by
      rw [holds.indices]
      exact List.mem_map_of_mem corner
    obtain ⟨i, member, found⟩ := List.mem_map.mp written
    refine ⟨i, member, ?_⟩
    -- a point has one vertex only
    obtain ⟨inside, -⟩ := List.getElem?_eq_some_iff.mp found
    exact (List.getElem?_inj inside holds.nodup).mp
      (found.trans (List.getElem?_eq_getElem below).symm)

/-- Dual contouring has a surface, unless the program has no density at a
neighbour of a position. -/
theorem ends_dualContouring {d : Density} (program : Program) (r : Request)
    {b : Buffers} (gradient : d.lattice.padding = .gradient)
    (few : d.lattice.cells ≤ maxCells)
    (room : b.capacity.holds
      (Algorithm.dualContouring.capacity d.lattice.cells) = true) :
    Ends (fun out => out.Complete b.capacity)
      (fun e => ∃ position, ∃ near ∈ neighbours (r.origin + position) r.epsilon,
        ∃ fault, e = .fault (.program fault) ∧
          densityAt program near = .error fault)
      (dualContouring d program r b) := by
  have ends := dualContouring_ends program r gradient room
  cases made : dualContouring d program r b with
  | error e =>
    rw [made] at ends
    obtain ⟨fault, rfl, hindrance⟩ := ends
    obtain ⟨position, near, member, f, rfl, failed⟩ :=
      density_of_hindrance few hindrance
    exact ⟨position, near, member, f, rfl, failed⟩
  | ok out =>
    rw [made] at ends
    obtain ⟨s, rfl, holds⟩ := ends
    exact holds.complete (fun p => mem_corners_of_vertexPoints)
      (dualContouring_spare made)

/-- Dual contouring has a surface wherever noise is defined. -/
theorem dualContouring_complete {d : Density} {program : Program}
    {r : Request} {b : Buffers} (gradient : d.lattice.padding = .gradient)
    (few : d.lattice.cells ≤ maxCells) (one : program.parameterCount ≤ 1)
    (room : b.capacity.holds
      (Algorithm.dualContouring.capacity d.lattice.cells) = true) :
    Ends (fun out => out.Complete b.capacity)
      (· = .fault (.program .noiseUndefined)) (dualContouring d program r b) := by
  refine (ends_dualContouring program r gradient few room).mono_error ?_
  rintro e ⟨position, near, member, fault, rfl, failed⟩
  rw [(undefined_of_densityAt one failed).1]

/-- The code of a point of the region can be read, if there is a border. -/
theorem quadCode_ok {d : Density} (gradient : d.lattice.padding = .gradient)
    {p : Point} (stored : Lattice.Contains ⟨d.lattice.cells, .none⟩ p)
    (level : Float32) : ∃ code, quadCode d p level = .ok code := by
  choose value read _ using fun c : Corner =>
    d.value_eq (d.lattice.contains_above gradient stored c) level
  have values : (fun c : Corner => d.value (p + c.offset)) =
      fun c => pure (value c) := funext read
  rw [quadCode, values, List.mapM_pure]
  exact ⟨_, rfl⟩

/-! ## Requests -/

theorem cells_of_validate {r : Request} (valid : r.validate = .ok ()) :
    1 ≤ r.cells.toNat ∧ r.cells.toNat ≤ maxCells := by
  unfold Request.validate at valid
  split at valid
  · cases valid
  · next inside =>
    obtain ⟨nonzero, few⟩ := not_or.mp inside
    refine ⟨Nat.pos_of_ne_zero fun zero => nonzero ?_, Nat.not_lt.mp few⟩
    exact UInt32.toNat_inj.mp zero

/-- **Meshes are well formed.** For every request that is in order, every
program of at most one parameter and all densities, extraction gives complete
buffers, and no point is read that is not stored. Marching cubes never fails,
its indices count up from zero, and its triangles are flat. Dual contouring
only fails where noise is not defined, and all points of the region can be
read for their quads and for smoothing. -/
theorem extract_complete {d : Density} {program : Program} {r : Request}
    {b : Buffers} (valid : r.validate = .ok ()) (sampled : d.lattice = r.lattice)
    (one : program.parameterCount ≤ 1)
    (room : b.capacity.holds r.capacity = true) :
    match r.algorithm with
    | .marchingCubes =>
      ∃ out, extract d program r b = .ok out ∧ out.Complete b.capacity ∧
        out.writtenIndices.map UInt32.toNat = List.range out.indexCount ∧
        ∀ t, 3 * t < out.indexCount → ∀ j < 3,
          out.writtenNormals[3 * t + j]? = out.writtenNormals[3 * t]?
    | .dualContouring =>
      (match extract d program r b with
        | .ok out => out.Complete b.capacity
        | .error e => e = .fault (.program .noiseUndefined)) ∧
      ∀ p, Lattice.Contains ⟨d.lattice.cells, .none⟩ p →
        (∃ code, quadCode d p r.level = .ok code) ∧
        ∃ corners, d.corners p = .ok corners := by
  have cells : d.lattice.cells = r.cells.toNat := congrArg Lattice.cells sampled
  have few : d.lattice.cells ≤ maxCells := cells ▸ (cells_of_validate valid).2
  have padding : d.lattice.padding = r.algorithm.padding :=
    congrArg Lattice.padding sampled
  rw [Request.capacity, ← cells] at room
  unfold extract
  cases chosen : r.algorithm with
  | marchingCubes =>
    rw [chosen] at room
    exact marchingCubes_complete few room r.level r.scale
  | dualContouring =>
    rw [chosen] at room padding
    refine ⟨?_, fun p stored => ⟨quadCode_ok padding stored r.level,
      d.corners_ok padding stored⟩⟩
    have ends := dualContouring_complete (r := r) padding few one room
    simp only
    cases made : dualContouring d program r b <;> rw [made] at ends <;> exact ends

/-- A cell with its least corner below zero and the others above. -/
def oneCorner : Density :=
  ⟨⟨1, .none⟩, #v[-1.0, 1.0, 1.0, 1.0, 1.0, 1.0, 1.0, 1.0]⟩

/-- A request for one cell. -/
theorem extract_complete_oneCorner :
    let r : Request := { cells := 1 }
    ∃ out, extract oneCorner (.constant .zero) r (.blank r.capacity) = .ok out ∧
      out.Complete r.capacity ∧
      out.writtenIndices.map UInt32.toNat = List.range out.indexCount := by
  intro r
  have valid : r.validate = .ok () := by decide +kernel
  have room : (Buffers.blank r.capacity).capacity.holds r.capacity = true := by
    rw [Buffers.capacity_blank]
    decide
  have few : (Program.constant .zero).parameterCount ≤ 1 := Nat.zero_le 1
  obtain ⟨out, made, complete, counted, -⟩ :=
    extract_complete (d := oneCorner) valid rfl few room
  rw [Buffers.capacity_blank] at complete
  exact ⟨out, made, complete, counted⟩

end FieldMesh.Mesh
