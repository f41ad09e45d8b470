import FieldMesh.Proofs.Mesh.QuadRun
import FieldMesh.Proofs.Mesh.QuadSurface

/-!
# Dual contouring makes closed surfaces of quads

A region gets one quad for each crossed edge that is far enough inside, with
the vertices of the points around it, facing the end that is below the level.
Away from the rim of the region these quads leave no holes.

* `indexSides`: the sides of triangles that are given by indices;
* `Surface.Holds.count_indexSides`: there are as many as between the points;
* `dualContouring_quads`: the quads of a region;
* `dualContouring_closed`: their sides cancel.
-/

namespace FieldMesh.Mesh

/-! ## Quads -/

/-- **The quads of dual contouring.** Whatever the densities are, the surface
of a region has two triangles for each edge that is far enough inside and
joins different sides of the level, and no others. Every vertex belongs to a
lattice point. Those of the two triangles belong to the points whose cells
share the edge, and both triangles face the end below the level. Only a
program without a normal, or a region with too many points, can stop this. -/
theorem dualContouring_quads {d : Density} (program : Program) (r : Request)
    {b : Buffers} (gradient : d.lattice.padding = .gradient)
    (room : b.capacity.holds
      (Algorithm.dualContouring.capacity d.lattice.cells) = true) :
    let cells := d.lattice.cells
    let below := d.below r.level
    let points := vertexPoints cells below
    let edges := crossedEdges cells below
    (match dualContouring d program r b with
      | .ok out =>
        out.writtenPositions = points.map (d.place program r) ∧
        out.writtenIndices.map (points[·.toNat]?) =
          ((edges.flatMap (edgeTriangles below)).flatMap triangleCorners).map some
      | .error e =>
        ∃ fault, e = .fault fault ∧ Hindrance (d.field program r) cells fault) ∧
    points.Nodup ∧
    (∀ p, p ∈ points ↔ ∃ e ∈ edges, ∃ a : Edge, a.inCell p = e) ∧
    edges.Nodup ∧
    (∀ e, e ∈ edges ↔
      e.Inside cells ∧ below e.base ≠ below (e.base + e.axis.unit)) ∧
    (∀ e ∈ edges,
      (edgeTriangles below e).length = 2 ∧
      (∀ p, (∃ t ∈ edgeTriangles below e, p ∈ triangleCorners t) ↔
        ∃ a : Edge, a.inCell p = e) ∧
      ∀ p ∈ e.ends, ∀ q ∈ e.ends, below p = true → below q = false →
        ∀ i j k, (i, j, k) ∈ edgeTriangles below e →
          (j - i).cross (k - i) = p - q) := by
  intro cells below points edges
  refine ⟨?_, nodup_firstNamed _, fun p => ?_, nodup_crossedEdges cells below,
    ?_, ?_⟩
  · have ends := dualContouring_ends program r gradient room
    cases made : dualContouring d program r b with
    | error e =>
      rw [made] at ends
      exact ends
    | ok out =>
      rw [made] at ends
      obtain ⟨s, rfl, holds⟩ := ends
      exact ⟨holds.positions, holds.indices⟩
  · rw [mem_vertexPoints]
  · intro e
    rw [mem_crossedEdges, LatticeEdge.crossed, bne_iff_ne]
  · intro e _
    refine ⟨length_edgeTriangles below e, fun p => mem_corners_edgeTriangles, ?_⟩
    intro p first q second isBelow notBelow i j k member
    exact normal_of_edgeTriangles member first second isBelow notBelow

/-- Constant programs have normals, so only the size of a region stops them. -/
theorem not_hindrance_constant {value origin : Vec3} {size epsilon : Float32}
    {cells : Nat} (few : Lattice.volume ⟨cells, .none⟩ < UInt32.size)
    {fault : Fault} :
    ¬ Hindrance ⟨.constant value, origin, size, epsilon⟩ cells fault := by
  intro hindrance
  cases hindrance with
  | normal position faulty => cases faulty
  | vertexNumber many => exact absurd few (Nat.not_lt.mpr many)

/-- A region of two cells along every axis with only its middle below zero. -/
def onePoint : Density :=
  let lattice : Lattice := ⟨2, .gradient⟩
  let middle : Fin lattice.volume := ⟨62, by decide⟩
  ⟨lattice, (Vector.replicate _ 1.0).set middle (-1.0)⟩

theorem onePoint_room :
    (Buffers.blank (Algorithm.dualContouring.capacity 2)).capacity.holds
      (Algorithm.dualContouring.capacity onePoint.lattice.cells) = true := by
  rw [Buffers.capacity_blank]
  decide

theorem dualContouring_quads_onePoint :
    ∃ out, dualContouring onePoint (.constant .zero) {}
        (.blank (Algorithm.dualContouring.capacity 2)) = .ok out ∧
      out.writtenIndices.length = 36 := by
  have quads := dualContouring_quads (.constant .zero) {} (d := onePoint) rfl
    onePoint_room
  cases made : dualContouring onePoint (.constant .zero) {}
      (.blank (Algorithm.dualContouring.capacity 2)) with
  | error e =>
    rw [made] at quads
    obtain ⟨⟨fault, -, hindrance⟩, -⟩ := quads
    exact absurd hindrance (not_hindrance_constant (by decide))
  | ok out =>
    rw [made] at quads
    obtain ⟨⟨-, indices⟩, -⟩ := quads
    refine ⟨out, rfl, ?_⟩
    have twelve : (quadSurface 2 (onePoint.below 0.0)).length = 12 := by
      decide
    have written := congrArg List.length indices
    rw [List.length_map, List.length_map,
      Surface.length_triangleCorners] at written
    rw [written]
    exact congrArg (3 * ·) twelve

/-! ## Sides -/

/-- The sides of triangles that are given by their corners, three for each. -/
def indexSides : List α → List (α × α)
  | a :: b :: c :: rest => triangleSides (a, b, c) ++ indexSides rest
  | _ => []

theorem indexSides_map (f : α → β) (l : List α) :
    indexSides (l.map f) = (indexSides l).map (Prod.map f f) := by
  fun_induction indexSides l with
  | case1 a b c rest ih =>
    simp only [List.map_cons, indexSides, ih, List.map_append]
    rfl
  | case2 l few =>
    match l with
    | [] | [_] | [_, _] => rfl
    | a :: b :: c :: rest => exact absurd rfl (few a b c rest)

theorem indexSides_corners (ts : List (α × α × α)) :
    indexSides (ts.flatMap triangleCorners) = ts.flatMap triangleSides := by
  induction ts with
  | nil => rfl
  | cons t rest ih =>
    rw [List.flatMap_cons, List.flatMap_cons, ← ih]
    rfl

/-- Sides between vertices are those between their points. -/
theorem Surface.Holds.count_indexSides {field : Field} {cells : Nat}
    {room : Capacity} {place : Point → Vec3} {points : List Point}
    {ts : List (Point × Point × Point)} {s : Surface}
    (holds : s.Holds field cells room place points ts) {i j : UInt32}
    {p q : Point} (first : points[i.toNat]? = some p)
    (second : points[j.toNat]? = some q) :
    (indexSides s.buffers.writtenIndices).count (i, j) =
      (ts.flatMap triangleSides).count (p, q) := by
  let name (k : UInt32) : Option Point := points[k.toNat]?
  have unique {k l : UInt32} {p : Point} (found : name k = some p) :
      name l = some p ↔ l = k := by
    constructor
    · intro found'
      obtain ⟨inside, -⟩ := List.getElem?_eq_some_iff.mp found'
      exact UInt32.toNat_inj.mp
        ((List.getElem?_inj inside holds.nodup).mp (found'.trans found.symm))
    · rintro rfl
      exact found
  -- every index has a point, and no two indices have the same
  have named : (indexSides s.buffers.writtenIndices).map (Prod.map name name) =
      (ts.flatMap triangleSides).map (Prod.map some some) := by
    rw [← indexSides_map, holds.indices, indexSides_map, indexSides_corners]
  have injective : Function.Injective (Prod.map (some : Point → _) (some : Point → _)) :=
    Function.Injective.prodMap (Option.some_injective _) (Option.some_injective _)
  calc (indexSides s.buffers.writtenIndices).count (i, j)
      = ((indexSides s.buffers.writtenIndices).map (Prod.map name name)).count
          (some p, some q) := by
        rw [List.count_eq_countP, List.count_eq_countP, List.countP_map]
        refine List.countP_congr fun side _ => ?_
        obtain ⟨k, l⟩ := side
        simp [unique first, unique second]
    _ = ((ts.flatMap triangleSides).map (Prod.map some some)).count
          (some p, some q) := by rw [named]
    _ = (ts.flatMap triangleSides).count (p, q) :=
        List.count_map_of_injective _ _ injective (p, q)

/-- **The surfaces of dual contouring are closed.** Whatever the densities
are, as many sides of triangles run from the vertex of a point to that of the
next one along an axis as back, if both are points of the region and not on
its rim across the axis. Between points that are not next to each other this
holds everywhere. -/
theorem dualContouring_closed {d : Density} (program : Program) (r : Request)
    {b : Buffers} (gradient : d.lattice.padding = .gradient)
    (room : b.capacity.holds
      (Algorithm.dualContouring.capacity d.lattice.cells) = true) :
    let cells := d.lattice.cells
    let points := vertexPoints cells (d.below r.level)
    (match dualContouring d program r b with
      | .ok out =>
        let sides := indexSides out.writtenIndices
        out.writtenPositions = points.map (d.place program r) ∧
        (∀ i ∈ out.writtenIndices, ∃ p, points[i.toNat]? = some p) ∧
        ∀ p q i j, points[i.toNat]? = some p → points[j.toNat]? = some q →
          (∀ axis : Axis, q = p + axis.unit → p.StepInside cells axis →
            sides.count (i, j) = sides.count (j, i)) ∧
          ((¬ ∃ axis : Axis, q = p + axis.unit ∨ p = q + axis.unit) →
            sides.count (i, j) = sides.count (j, i))
      | .error e =>
        ∃ fault, e = .fault fault ∧ Hindrance (d.field program r) cells fault) ∧
    points.Nodup := by
  intro cells points
  refine ⟨?_, nodup_firstNamed _⟩
  have ends := dualContouring_ends program r gradient room
  cases made : dualContouring d program r b with
  | error e =>
    rw [made] at ends
    exact ends
  | ok out =>
    rw [made] at ends
    obtain ⟨s, rfl, holds⟩ := ends
    refine ⟨holds.positions, fun i => holds.named, ?_⟩
    intro p q i j first second
    rw [holds.count_indexSides first second, holds.count_indexSides second first]
    refine ⟨?_, fun apart => ?_⟩
    · rintro axis rfl inside
      exact count_surfaceQuadSides_step _ inside
    · refine count_surfaceQuadSides_diagonal _ _ (isDiagonal_iff.mpr apart)
        (isDiagonal_iff.mpr ?_)
      rintro ⟨axis, next⟩
      exact apart ⟨axis, next.symm⟩

theorem dualContouring_closed_onePoint :
    ∃ out, dualContouring onePoint (.constant .zero) {}
        (.blank (Algorithm.dualContouring.capacity 2)) = .ok out ∧
      (indexSides out.writtenIndices).count (2, 7) =
        (indexSides out.writtenIndices).count (7, 2) := by
  have closed := dualContouring_closed (.constant .zero) {} (d := onePoint) rfl
    onePoint_room
  cases made : dualContouring onePoint (.constant .zero) {}
      (.blank (Algorithm.dualContouring.capacity 2)) with
  | error e =>
    rw [made] at closed
    obtain ⟨⟨fault, -, hindrance⟩, -⟩ := closed
    exact absurd hindrance (not_hindrance_constant (by decide))
  | ok out =>
    rw [made] at closed
    obtain ⟨⟨-, -, cancel⟩, -⟩ := closed
    refine ⟨out, rfl, (cancel ⟨1, 1, 0⟩ ⟨1, 1, 1⟩ 2 7 ?_ ?_).1 .z ?_ ?_⟩
    · decide +kernel
    · decide +kernel
    · decide
    · decide

end FieldMesh.Mesh
