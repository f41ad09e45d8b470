import FieldMesh.Mesh.MarchingCubes
import FieldMesh.Proofs.Mesh.CellSurface
import FieldMesh.Proofs.Mesh.Writing

/-!
# Marching cubes makes closed surfaces

The buffers get the triangles of all cells in order, each with vertices of
its own, and there is always room for them. Named by the edges that its
vertices lie on, the surface is closed and oriented.

* `Density.crossingPoint`: where a vertex is;
* `addFacet_grows`, `addFacets_grow`: what triangles write;
* `marchingCubes_eq`: what is written for a region;
* `marchingCubes_closed`: it is a closed, oriented surface through crossing
  points.
-/

namespace FieldMesh.Mesh

/-! ## Writing triangles -/

/-- The vertices of a flat triangle, with its normal. -/
def Facet.vertices (facet : Facet) : List (Vec3 × Vec3) :=
  [(facet.a, facet.normal), (facet.b, facet.normal), (facet.c, facet.normal)]

namespace Buffers

/-- A triangle writes three vertices and their numbers. -/
theorem addFacet_grows {b : Buffers} (inOrder : b.InOrder) (facet : Facet)
    (vertices : b.vertexCount + 3 ≤ b.capacity.vertices)
    (indices : b.indexCount + 3 ≤ b.capacity.indices) :
    ∃ b', b.addFacet facet = .ok b' ∧
      b.Grows facet.vertices
        ((List.range' b.vertexCount 3).map UInt32.ofNat) b' := by
  -- no write is refused: there is room for all of them from the start
  rcases addVertex_eq inOrder facet.a facet.normal with
    ⟨-, b₁, first, grows₁⟩ | ⟨full, -⟩
  swap
  · omega
  have count₁ : b₁.vertexCount = b.vertexCount + 1 := grows₁.vertexCount
  have same₁ := grows₁.capacity
  rcases addVertex_eq grows₁.inOrder facet.b facet.normal with
    ⟨-, b₂, second, grows₂⟩ | ⟨full, -⟩
  swap
  · rw [same₁] at full
    omega
  have count₂ : b₂.vertexCount = b₁.vertexCount + 1 := grows₂.vertexCount
  have same₂ := grows₂.capacity
  rcases addVertex_eq grows₂.inOrder facet.c facet.normal with
    ⟨-, b₃, third, grows₃⟩ | ⟨full, -⟩
  swap
  · rw [same₂, same₁] at full
    omega
  have whole := (grows₁.trans grows₂).trans grows₃
  have indices₃ : b₃.indexCount = b.indexCount := whole.indexCount
  have same₃ := whole.capacity
  rcases addTriangle_eq grows₃.inOrder (.ofNat b.vertexCount)
      (.ofNat b₁.vertexCount) (.ofNat b₂.vertexCount) with
    ⟨-, b₄, triangle, grows₄⟩ | ⟨full, -⟩
  swap
  · rw [same₃] at full
    omega
  refine ⟨b₄, ?_, ?_⟩
  · simp only [addFacet, first, second, third, bind, Except.bind, triangle]
  · have numbers : (List.range' b.vertexCount 3).map UInt32.ofNat =
        [.ofNat b.vertexCount, .ofNat b₁.vertexCount, .ofNat b₂.vertexCount] := by
      rw [count₂, count₁]
      rfl
    rw [numbers]
    exact whole.trans grows₄

/-- Triangles write three vertices each, numbered one after the other. -/
theorem addFacets_grow (facets : List Facet) {b : Buffers} (inOrder : b.InOrder)
    (vertices : b.vertexCount + 3 * facets.length ≤ b.capacity.vertices)
    (indices : b.indexCount + 3 * facets.length ≤ b.capacity.indices) :
    ∃ b', facets.foldlM addFacet b = .ok b' ∧
      b.Grows (facets.flatMap Facet.vertices)
        ((List.range' b.vertexCount (3 * facets.length)).map UInt32.ofNat)
        b' := by
  induction facets generalizing b with
  | nil => exact ⟨b, rfl, .refl inOrder⟩
  | cons facet rest ih =>
    rw [List.length_cons] at vertices indices
    obtain ⟨b₁, added, grows⟩ := addFacet_grows inOrder facet (by omega) (by omega)
    have counted : b₁.vertexCount = b.vertexCount + 3 := grows.vertexCount
    have counted' : b₁.indexCount = b.indexCount + 3 := grows.indexCount
    have same := grows.capacity
    obtain ⟨b₂, done, grows'⟩ := ih grows.inOrder (by rw [same]; omega)
      (by rw [same]; omega)
    refine ⟨b₂, ?_, ?_⟩
    · rw [List.foldlM_cons, added]
      exact done
    · have numbers : List.range' b.vertexCount (3 * (facet :: rest).length) =
          List.range' b.vertexCount 3 ++
            List.range' b₁.vertexCount (3 * rest.length) := by
        rw [counted, List.range'_append_1, List.length_cons]
        congr 1
        omega
      rw [List.flatMap_cons, numbers, List.map_append]
      exact grows.trans grows'

end Buffers

/-! ## Cells -/

/-- The point at which an edge of a cell crosses the level. -/
def Density.crossingPoint (d : Density) (level size : Float32) (cell : Point)
    (e : Edge) : Vec3 :=
  match d.corners cell with
  | .ok corners => edgePoint cell corners level size e
  | .error _ => Vec3.zero

/-- The flat triangle through crossing points. -/
def Density.facet (d : Density) (level size : Float32) :
    Point × EdgeTriangle → Facet
  | (cell, i, j, k) =>
    .ofCorners (d.crossingPoint level size cell i)
      (d.crossingPoint level size cell j) (d.crossingPoint level size cell k)

/-- A cell has its triangles written, with crossing points for vertices. -/
theorem addCell_eq {d : Density} {cell : Point}
    (isCell : cell.IsCell d.lattice.cells) (level size : Float32) (b : Buffers) :
    addCell d level size b cell =
      ((cellTriangles (d.below level) cell).map (d.facet level size)).foldlM
        Buffers.addFacet b := by
  obtain ⟨corners, read, case⟩ := d.corners_eq isCell level
  have small := caseAt_lt (d.below level) cell
  have facets : cellFacets cell corners level size =
      (cellTriangles (d.below level) cell).map (d.facet level size) := by
    have point (e : Edge) : d.crossingPoint level size cell e =
        edgePoint cell corners level size e := by
      rw [Density.crossingPoint, read]
    rw [cellFacets, cellTriangles, List.map_map, case]
    split
    · next empty =>
      -- a triangle would have its corners on edges of the mask
      have empty : triangles (caseAt (d.below level) cell) = [] := by
        refine List.eq_nil_iff_forall_not_mem.mpr fun t member => ?_
        have crossed := (testBit_of_triangles small member).1
        rw [empty, Nat.zero_testBit] at crossed
        exact absurd crossed Bool.false_ne_true
      rw [empty]
      rfl
    · -- only crossed edges are used, so no corner is left at zero
      refine List.map_congr_left fun t member => ?_
      obtain ⟨i, j, k⟩ := t
      obtain ⟨first, second, third⟩ := testBit_of_triangles small member
      simp only [Function.comp_apply, emitted, Density.facet, point]
      rw [if_pos first, if_pos second, if_pos third]
  rw [← facets, addCell, read]
  rfl

/-! ## The region -/

theorem length_surfaceTriangles (cells : Nat) (below : Point → Bool) :
    (surfaceTriangles cells below).length ≤ 5 * (cells * cells * cells) := by
  rw [← length_cellPoints]
  refine length_flatMap_le fun cell _ => ?_
  rw [cellTriangles, List.length_map]
  exact length_triangles (caseAt_lt below cell)

/-- Buffers of sufficient capacity get the triangles of all cells. -/
theorem marchingCubes_eq {d : Density} {b : Buffers}
    (room : b.capacity.holds
      (Algorithm.marchingCubes.capacity d.lattice.cells) = true)
    (level scale : Float32) :
    let surface := surfaceTriangles d.lattice.cells (d.below level)
    let size := cellSize scale d.lattice.cells
    ∃ out, marchingCubes d level scale b = .ok out ∧
      (Buffers.blank b.capacity).Grows
        ((surface.map (d.facet level size)).flatMap Facet.vertices)
        ((List.range (3 * surface.length)).map UInt32.ofNat) out := by
  intro surface size
  have few : surface.length ≤ _ := length_surfaceTriangles _ _
  obtain ⟨vertices, indices⟩ := Capacity.holds_iff.mp room
  simp only [Algorithm.capacity, Algorithm.trianglesPerCell] at vertices indices
  have same := Buffers.capacity_blank b.capacity
  -- five triangles for each cell are room for all facets
  obtain ⟨out, done, grows⟩ := Buffers.addFacets_grow
    (surface.map (d.facet level size)) (Buffers.inOrder_blank b.capacity)
    (by
      rw [same, List.length_map]
      simp only [Buffers.blank]
      omega)
    (by
      rw [same, List.length_map]
      simp only [Buffers.blank]
      omega)
  refine ⟨out, ?_, ?_⟩
  · rw [List.foldlM_map] at done
    rw [marchingCubes]
    simp only [checkCapacity, room]
    refine congrArg (Except.mapError MeshError.fault) (Eq.trans ?_ done)
    exact walk_eq_foldlM (fun cell isCell buffers =>
      (addCell_eq isCell level size buffers).trans List.foldlM_map) _
  · rw [List.length_map] at grows
    rw [List.range_eq_range']
    exact grows

/-- Every triangle has three vertices of its own, and the indices count them. -/
theorem Buffers.Grows.facets {α : Type} {room : Capacity} {triangles : List α}
    {facet : α → Facet} {out : Buffers}
    (grows : (Buffers.blank room).Grows
      ((triangles.map facet).flatMap Facet.vertices)
      ((List.range (3 * triangles.length)).map UInt32.ofNat) out) :
    out.vertexCount = 3 * triangles.length ∧
      out.indexCount = 3 * triangles.length ∧
      out.writtenIndices =
        (List.range (3 * triangles.length)).map UInt32.ofNat := by
  refine ⟨?_, ?_, grows.indices⟩
  · rw [grows.vertexCount, length_flatMap_eq (n := 3) (fun _ => rfl),
      List.length_map]
    exact Nat.zero_add _
  · rw [grows.indexCount, List.length_map, List.length_range]
    exact Nat.zero_add _

/-- The vertices of the triangles of all cells, by the edges of cells that
they lie on. -/
def surfaceVertices (cells : Nat) (below : Point → Bool) : List (Point × Edge) :=
  (surfaceTriangles cells below).flatMap fun (cell, i, j, k) =>
    [(cell, i), (cell, j), (cell, k)]

theorem length_surfaceVertices (cells : Nat) (below : Point → Bool) :
    (surfaceVertices cells below).length =
      3 * (surfaceTriangles cells below).length := by
  refine length_flatMap_eq ?_ _
  exact fun _ => rfl

theorem Density.crossingPoint_eq {d : Density} {cell : Point}
    (isCell : cell.IsCell d.lattice.cells) (level size : Float32) (e : Edge) :
    ∃ corners, d.corners cell = .ok corners ∧
      d.crossingPoint level size cell e =
        edgePoint cell corners level size e := by
  obtain ⟨corners, read, -⟩ := d.corners_eq isCell level
  refine ⟨corners, read, ?_⟩
  rw [crossingPoint, read]

/-- A crossing point lies on the way from the first end of its edge to the
second, as far along as the level is between the densities there, or halfway if
these are nearly the same. -/
theorem Density.crossingPoint_between {d : Density} {cell : Point}
    (isCell : cell.IsCell d.lattice.cells) (level size : Float32) (e : Edge) :
    let p := cell + e.ends.1.offset
    let q := cell + e.ends.2.offset
    ∃ first second t : Float32,
      d.value p = .ok first ∧ d.value q = .ok second ∧
      (t = if (second - first).abs > 0.00001 then
          (level - first) / (second - first) else 0.5) ∧
      d.crossingPoint level size cell e =
        (p.toVec3 + (q - p).toVec3.scale t).scale size := by
  intro p q
  obtain ⟨corners, read, values⟩ := d.corners_read isCell
  refine ⟨corners.get e.ends.1, corners.get e.ends.2,
    edgeCrossing corners level e, values e.ends.1, values e.ends.2, rfl, ?_⟩
  have direction : q - p = e.direction := by
    ext <;> simp [p, q, Edge.direction]
  rw [crossingPoint, read, direction]
  rfl

/-- Vertices are on edges that join different sides of the level. -/
theorem crosses_of_surfaceVertices {cells : Nat} {below : Point → Bool}
    {cell : Point} {e : Edge} (member : (cell, e) ∈ surfaceVertices cells below) :
    cell.IsCell cells ∧
      below (cell + e.ends.1.offset) ≠ below (cell + e.ends.2.offset) := by
  obtain ⟨⟨cell', i, j, k⟩, inside, vertex⟩ := List.mem_flatMap.mp member
  obtain ⟨point, isCell, inside⟩ := List.mem_flatMap.mp inside
  obtain ⟨⟨i', k', j'⟩, row, same⟩ := List.mem_map.mp inside
  obtain ⟨rfl, same⟩ := Prod.mk.inj same
  obtain ⟨rfl, rfl, rfl⟩ : i' = i ∧ j' = j ∧ k' = k := by
    simpa [emitted] using same
  have small := caseAt_lt below point
  have differ (e : Edge) (crossed : (crossingMask (caseAt below point)).testBit e) :
      below (point + e.ends.1.offset) ≠ below (point + e.ends.2.offset) := by
    rw [testBit_crossingMask small, Edge.crosses, testBit_caseAt,
      testBit_caseAt] at crossed
    exact bne_iff_ne.mp crossed
  obtain ⟨first, third, second⟩ := testBit_of_triangles small row
  simp only [List.mem_cons, List.not_mem_nil, or_false, Prod.mk.injEq] at vertex
  rcases vertex with ⟨rfl, rfl⟩ | ⟨rfl, rfl⟩ | ⟨rfl, rfl⟩
  · exact ⟨mem_cellPoints.mp isCell, differ _ first⟩
  · exact ⟨mem_cellPoints.mp isCell, differ _ second⟩
  · exact ⟨mem_cellPoints.mp isCell, differ _ third⟩

/-- **Marching cubes.** Whatever the densities are, the surface of a region is
closed and oriented. The vertices are crossing points on edges of the cells
that join different sides of the level, three for every triangle; each is as
far along its edge as the level is between the densities at the ends. Named by
these edges, there are as many sides from one edge to another one as back,
unless both lie in a face on the outside. Where a cell has more of them one
way in one of its faces, the ends below the level are to the left as seen from
outside. -/
theorem marchingCubes_closed {d : Density} {level scale : Float32} {b : Buffers}
    (room : b.capacity.holds
      (Algorithm.marchingCubes.capacity d.lattice.cells) = true) :
    let cells := d.lattice.cells
    let below := d.below level
    let size := cellSize scale cells
    (∃ out, marchingCubes d level scale b = .ok out ∧
      out.writtenPositions = (surfaceVertices cells below).map
        (fun (cell, e) => d.crossingPoint level size cell e) ∧
      out.writtenIndices =
        (List.range (surfaceVertices cells below).length).map UInt32.ofNat) ∧
    (∀ cell e, (cell, e) ∈ surfaceVertices cells below →
      let p := cell + e.ends.1.offset
      let q := cell + e.ends.2.offset
      cell.IsCell cells ∧
      (∃ corners, d.corners cell = .ok corners ∧
        d.crossingPoint level size cell e =
          edgePoint cell corners level size e) ∧
      (∃ first second t : Float32,
        d.value p = .ok first ∧ d.value q = .ok second ∧
        (t = if (second - first).abs > 0.00001 then
            (level - first) / (second - first) else 0.5) ∧
        d.crossingPoint level size cell e =
          (p.toVec3 + (q - p).toVec3.scale t).scale size) ∧
      below p ≠ below q) ∧
    (∀ e f : LatticeEdge,
      (∀ face : LatticeFace, e ∈ face.edges → f ∈ face.edges →
        ¬ face.Outer cells) →
      (surfaceSides cells below).count (e, f) =
        (surfaceSides cells below).count (f, e)) ∧
    (∀ cell face out, (face, out) ∈ LatticeFace.ofCell cell →
      ∀ e ∈ face.edges, ∀ f ∈ face.edges,
        (cellSides below cell).count (f, e) <
          (cellSides below cell).count (e, f) →
        ∀ p ∈ e.ends ++ f.ends, below p = true →
          LatticeEdge.LeftOf out e f p) := by
  intro cells below size
  refine ⟨?_, fun cell e member => ?_, fun e f => count_surfaceSides, ?_⟩
  · obtain ⟨out, done, grows⟩ := marchingCubes_eq room level scale
    refine ⟨out, done, ?_, ?_⟩
    · rw [grows.positions, List.map_flatMap, List.flatMap_map]
      rw [surfaceVertices, List.map_flatMap]
      rfl
    · rw [grows.indices, length_surfaceVertices]
      rfl
  · obtain ⟨isCell, differ⟩ := crosses_of_surfaceVertices member
    exact ⟨isCell, d.crossingPoint_eq isCell level size e,
      d.crossingPoint_between isCell level size e, differ⟩
  · intro cell face out around e first f second more p joined isBelow
    exact leftOf_of_cellSides around first second more joined isBelow

/-- Two cells along every axis, with only the middle of an outer edge below
zero. Two of the cells have it for a corner, and share a face with it. -/
def sharedCorner : Density :=
  let lattice : Lattice := ⟨2, .none⟩
  let middle : Fin lattice.volume := ⟨1, by decide⟩
  ⟨lattice, (Vector.replicate _ 1.0).set middle (-1.0)⟩

/-- Across the shared face there is one side each way. -/
theorem marchingCubes_sharedCorner :
    let upward : LatticeEdge := ⟨⟨1, 0, 0⟩, .y⟩
    let inward : LatticeEdge := ⟨⟨1, 0, 0⟩, .z⟩
    ∃ out, marchingCubes sharedCorner 0.0 1.0
        (.blank (Algorithm.marchingCubes.capacity 2)) = .ok out ∧
      out.writtenIndices = [0, 1, 2, 3, 4, 5] ∧
      (surfaceSides 2 (sharedCorner.below 0.0)).count (upward, inward) = 1 ∧
      (surfaceSides 2 (sharedCorner.below 0.0)).count (inward, upward) = 1 := by
  intro upward inward
  have room : (Buffers.blank (Algorithm.marchingCubes.capacity 2)).capacity.holds
      (Algorithm.marchingCubes.capacity sharedCorner.lattice.cells) = true := by
    rw [Buffers.capacity_blank]
    decide
  obtain ⟨⟨out, done, -, indices⟩, -, closed, -⟩ :=
    marchingCubes_closed (d := sharedCorner) room
  have six : (surfaceVertices sharedCorner.lattice.cells
      (sharedCorner.below 0.0)).length = 6 := by
    decide +kernel
  have once : (surfaceSides 2 (sharedCorner.below 0.0)).count
      (upward, inward) = 1 := by
    decide +kernel
  -- the shared face is the only one with both edges
  have inner : ∀ face : LatticeFace, upward ∈ face.edges → inward ∈ face.edges →
      ¬ face.Outer 2 := by
    intro face first second
    have tried : ∀ face ∈ LatticeFace.ofEdge upward, inward ∈ face.edges →
        ¬ face.Outer 2 := by
      decide
    exact tried face (LatticeFace.mem_ofEdge first) second
  refine ⟨out, done, ?_, once, (closed upward inward inner).symm.trans once⟩
  rw [indices, six]
  rfl

end FieldMesh.Mesh
