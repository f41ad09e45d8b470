import Mathlib.Data.Set.Function
import FieldMesh.Proofs.Mesh.DualContouring

/-!
# The numbers of vertices

Quads are written one after the other and name their corners in turn. The
vertex of a point has the number of points that are named before it is, so
each corner of a quad has one vertex, and there are no others.

* `vertexNumber`: how many points are named before a point is for the first
  time;
* `bijOn_vertexNumber`, `vertexNumber_lt_iff`: this numbers the named points
  without gaps, in the order in which they are first named;
* `writtenQuads`: the quads of a region, in the order in which a walk writes
  them;
* `writtenQuads_eq`: they are those around the crossed edges;
* `dualContouring_numbers`: the vertices of a region are those of the corners
  of its quads, and triangles name them by their numbers.
-/

namespace FieldMesh.Mesh

/-! ## Numbers by first naming -/

/-- How many points are named before a point is named for the first time. -/
def vertexNumber (named : List Point) (p : Point) : Nat :=
  (named.take (named.idxOf p)).toFinset.card

theorem length_firstNamed (named : List Point) :
    (firstNamed named).length = named.toFinset.card := by
  have same : (firstNamed named).toFinset = named.toFinset := by
    ext p
    rw [List.mem_toFinset, List.mem_toFinset, mem_firstNamed]
  rw [← same, List.toFinset_card_of_nodup (nodup_firstNamed named)]

/-- A point that is named first after others comes after these. -/
theorem vertexNumber_append {before : List Point} {p : Point} (new : p ∉ before)
    (rest : List Point) :
    vertexNumber (before ++ p :: rest) p = before.toFinset.card := by
  rw [vertexNumber, List.idxOf_append_of_notMem new, List.idxOf_cons_self,
    Nat.add_zero, List.take_left]

/-- A named point stands at its number. -/
theorem getElem?_vertexNumber {named : List Point} {p : Point}
    (member : p ∈ named) :
    (firstNamed named)[vertexNumber named p]? = some p := by
  obtain ⟨before, rest, rfl, new⟩ := List.eq_append_cons_of_mem member
  have absent : p ∉ firstNamed before := fun known =>
    new (mem_firstNamed.mp known)
  -- it is put last when it is first named, and later points do not move it
  rw [vertexNumber_append new, ← length_firstNamed, firstNamed,
    List.foldl_append, List.foldl_cons]
  refine getElem?_foldl_note rest ?_
  show (note (firstNamed before) p)[_]? = _
  rw [note, if_neg absent]
  exact List.getElem?_concat_length

theorem vertexNumber_of_getElem? {named : List Point} {p : Point} {k : Nat}
    (found : (firstNamed named)[k]? = some p) : vertexNumber named p = k := by
  have member : p ∈ named := mem_firstNamed.mp (List.mem_of_getElem? found)
  obtain ⟨inside, -⟩ := List.getElem?_eq_some_iff.mp found
  have same := (getElem?_vertexNumber member).trans found.symm
  exact ((List.getElem?_inj inside (nodup_firstNamed named)).mp same.symm).symm

/-- Named points have different numbers, and no number is left out. -/
theorem bijOn_vertexNumber (named : List Point) :
    Set.BijOn (vertexNumber named) {p | p ∈ named}
      (Set.Iio (firstNamed named).length) := by
  refine ⟨fun p member => ?_, fun p first q second same => ?_,
    fun k inside => ?_⟩
  · exact (List.getElem?_eq_some_iff.mp (getElem?_vertexNumber member)).1
  · have found := getElem?_vertexNumber first
    rw [same, getElem?_vertexNumber second] at found
    exact (Option.some.inj found).symm
  · have found := List.getElem?_eq_getElem (Set.mem_Iio.mp inside)
    exact ⟨_, mem_firstNamed.mp (List.mem_of_getElem? found),
      vertexNumber_of_getElem? found⟩

/-- What is named earlier has a smaller number. -/
theorem vertexNumber_lt {named : List Point} {p q : Point} (member : p ∈ named)
    (earlier : named.idxOf p < named.idxOf q) :
    vertexNumber named p < vertexNumber named q := by
  have fewer := List.take_subset_take_left named (Nat.le_of_lt earlier)
  have later : p ∈ named.take (named.idxOf q) :=
    (List.mem_take_iff_idxOf_lt member).mpr earlier
  have new : p ∉ named.take (named.idxOf p) := fun before =>
    Nat.lt_irrefl _ ((List.mem_take_iff_idxOf_lt member).mp before)
  refine Finset.card_lt_card ((Finset.ssubset_iff_of_subset ?_).mpr ?_)
  · exact fun r before =>
      List.mem_toFinset.mpr (fewer (List.mem_toFinset.mp before))
  · exact ⟨p, List.mem_toFinset.mpr later,
      fun before => new (List.mem_toFinset.mp before)⟩

/-- Numbers are in the order in which points are first named. -/
theorem vertexNumber_lt_iff {named : List Point} {p q : Point}
    (first : p ∈ named) (second : q ∈ named) :
    vertexNumber named p < vertexNumber named q ↔
      named.idxOf p < named.idxOf q := by
  constructor
  · intro smaller
    rcases Nat.lt_trichotomy (named.idxOf p) (named.idxOf q) with
      earlier | same | later
    · exact earlier
    · obtain rfl := (List.idxOf_inj first).mp same
      exact absurd smaller (Nat.lt_irrefl _)
    · exact absurd smaller (Nat.lt_asymm (vertexNumber_lt second later))
  · exact vertexNumber_lt first

/-! ## Quads in the order of the walk -/

/-- A quad between points of the lattice. -/
structure LatticeQuad where
  a : Point
  b : Point
  c : Point
  d : Point
  /-- Whether it turns the other way round. -/
  flipped : Bool
  deriving DecidableEq, Repr

/-- A quad of the cell at a lattice point. -/
def Quad.inCell (quad : Quad) (cell : Point) (flipped : Bool) :
    LatticeQuad where
  a := cell + quad.a.offset
  b := cell + quad.b.offset
  c := cell + quad.c.offset
  d := cell + quad.d.offset
  flipped := flipped

namespace LatticeQuad

/-- The corners of a quad, in turn. -/
def corners (quad : LatticeQuad) : List Point :=
  [quad.a, quad.b, quad.c, quad.d]

/-- The triangles of a quad, whose points go by some names. -/
def triangles (name : Point → α) (quad : LatticeQuad) : List (α × α × α) :=
  Surface.quadTriangles quad.flipped (name quad.a) (name quad.b) (name quad.c)
    (name quad.d)

/-- The quad around an edge. -/
def around (below : Point → Bool) (e : LatticeEdge) : LatticeQuad where
  a := e.anchors.1
  b := e.anchors.2.1
  c := e.anchors.2.2.1
  d := e.anchors.2.2.2
  flipped := below (e.base + e.axis.unit)

/-- It is one of the quads of its first corner. -/
theorem around_eq (below : Point → Bool) (e : LatticeEdge) :
    around below e = (Quad.around e.axis).inCell e.anchors.1
      (below (e.base + e.axis.unit)) := by
  obtain ⟨a, b, c, d⟩ := corners_around e
  rw [Quad.inCell, a, b, c, d]
  rfl

theorem triangleCorners_triangles (name : Point → α) (quad : LatticeQuad) :
    (quad.triangles name).flatMap triangleCorners =
      ((quad.triangles id).flatMap triangleCorners).map name := by
  obtain ⟨a, b, c, d, flipped⟩ := quad
  cases flipped <;> rfl

end LatticeQuad

/-- The quads of a cell, in the order of its case. -/
def quadsAt (below : Point → Bool) (cell : Point) : List LatticeQuad :=
  let case := quadCaseAt below cell
  case.quads.map fun quad => quad.inCell cell case.flipped

/-- The quads of a region, in the order of a walk over its cells: along x for
every z, and along z for every y. -/
def writtenQuads (cells : Nat) (below : Point → Bool) : List LatticeQuad :=
  (cellPoints cells).flatMap (quadsAt below)

theorem quadsAt_eq (below : Point → Bool) (cell : Point) :
    quadsAt below cell =
      (([.z, .y, .x].map (farEdge cell)).filter
        (LatticeEdge.crossed below)).map (LatticeQuad.around below) := by
  have each (axis : Axis) :
      (Quad.around axis).inCell cell (below (cell + Corner.offset 6)) =
        LatticeQuad.around below (farEdge cell axis) := by
    rw [LatticeQuad.around_eq, anchor_farEdge, ← upper_farEdge cell axis]
    rfl
  rw [quadsAt, quadCaseAt_eq, List.filter_map, List.map_map, List.map_map]
  exact List.map_congr_left fun axis _ => each axis

/-- The quads of a region are those around its crossed edges. -/
theorem writtenQuads_eq (cells : Nat) (below : Point → Bool) :
    writtenQuads cells below =
      (crossedEdges cells below).map (LatticeQuad.around below) := by
  rw [writtenQuads, crossedEdges, List.map_flatMap]
  exact List.flatMap_congr fun cell _ => quadsAt_eq below cell

theorem corners_writtenQuads (cells : Nat) (below : Point → Bool) :
    (writtenQuads cells below).flatMap LatticeQuad.corners =
      (crossedEdges cells below).flatMap LatticeEdge.anchorList := by
  rw [writtenQuads_eq, List.flatMap_map]
  rfl

theorem triangles_writtenQuads (cells : Nat) (below : Point → Bool) :
    (writtenQuads cells below).flatMap (LatticeQuad.triangles id) =
      quadSurface cells below := by
  rw [writtenQuads_eq, List.flatMap_map]
  rfl

/-! ## Numbers of vertices -/

theorem Field.normalAt_of_normal (field : Field) {position normal : Vec3}
    (given : field.normal position = .ok normal) :
    normalAt field.program (field.origin + position) field.epsilon =
      .ok normal := by
  unfold Field.normal at given
  cases found :
    normalAt field.program (field.origin + position) field.epsilon with
  | error fault =>
    rw [found] at given
    cases given
  | ok other =>
    rw [found] at given
    cases given
    rfl

/-- Triangles name their corners by the numbers of these. -/
theorem Surface.Holds.numbers {field : Field} {cells : Nat} {room : Capacity}
    {place : Point → Vec3} {named : List Point}
    {ts : List (Point × Point × Point)} {s : Surface}
    (holds : s.Holds field cells room place (firstNamed named) ts) :
    s.buffers.writtenIndices.map UInt32.toNat =
      (ts.flatMap triangleCorners).map (vertexNumber named) := by
  let number (found : Option Point) : Nat := found.elim 0 (vertexNumber named)
  have read : ∀ i ∈ s.buffers.writtenIndices,
      i.toNat = number ((firstNamed named)[i.toNat]?) := by
    intro i member
    obtain ⟨p, found⟩ := holds.named member
    rw [found]
    exact (vertexNumber_of_getElem? found).symm
  calc s.buffers.writtenIndices.map UInt32.toNat
      = (s.buffers.writtenIndices.map
          ((firstNamed named)[·.toNat]?)).map number := by
        rw [List.map_map]
        exact List.map_congr_left read
    _ = ((ts.flatMap triangleCorners).map some).map number := by
        rw [holds.indices]
    _ = (ts.flatMap triangleCorners).map (vertexNumber named) := by
        rw [List.map_map]
        rfl

/-- The vertex of a named point is at its number. -/
theorem Surface.Holds.vertex {field : Field} {cells : Nat} {room : Capacity}
    {place : Point → Vec3} {named : List Point}
    {ts : List (Point × Point × Point)} {s : Surface}
    (holds : s.Holds field cells room place (firstNamed named) ts) {p : Point}
    (member : p ∈ named) :
    s.buffers.writtenPositions[vertexNumber named p]? = some (place p) ∧
      ∃ normal, field.normal (place p) = .ok normal ∧
        s.buffers.writtenNormals[vertexNumber named p]? = some normal := by
  have found := getElem?_vertexNumber member
  constructor
  · rw [holds.positions, List.getElem?_map, found]
    rfl
  · have normals := congrArg (·[vertexNumber named p]?) holds.normals
    simp only [List.getElem?_map, found, Option.map_some] at normals
    obtain ⟨normal, at_number, same⟩ := Option.map_eq_some_iff.mp normals
    exact ⟨normal, same.symm, at_number⟩

/-- **Vertices are shared exactly.** Whatever the densities are, the vertices
of a region are numbered by the lattice points that are corners of its quads,
in the order in which the quads name these. There is one vertex for each of
them and none for other points, and every quad names its corners by their
numbers. Unless vertices are moved, each is in the middle of the cell above its
point, with the normal of the program there, by central differences. Only a program without a normal,
or a region with too many points, can stop this. -/
theorem dualContouring_numbers {d : Density} (program : Program) (r : Request)
    {b : Buffers} (gradient : d.lattice.padding = .gradient)
    (room : b.capacity.holds
      (Algorithm.dualContouring.capacity d.lattice.cells) = true) :
    let cells := d.lattice.cells
    let quads := writtenQuads cells (d.below r.level)
    let named := quads.flatMap LatticeQuad.corners
    (match dualContouring d program r b with
      | .ok out =>
        Set.BijOn (vertexNumber named) {p | ∃ quad ∈ quads, p ∈ quad.corners}
          (Set.Iio out.vertexCount) ∧
        out.writtenIndices.map UInt32.toNat =
          quads.flatMap (fun quad =>
            (quad.triangles (vertexNumber named)).flatMap triangleCorners) ∧
        (r.smooth = false → ∀ p ∈ named,
          let position := (p.toVec3 + .splat 0.5).scale (cellSize r.scale cells)
          out.writtenPositions[vertexNumber named p]? = some position ∧
            ∃ normal,
              normalAt program (r.origin + position) r.epsilon = .ok normal ∧
              CentralNormal program (r.origin + position) r.epsilon normal ∧
              out.writtenNormals[vertexNumber named p]? = some normal)
      | .error e =>
        ∃ fault, e = .fault fault ∧ Hindrance (d.field program r) cells fault) ∧
    ∀ p ∈ named, ∀ q ∈ named,
      vertexNumber named p < vertexNumber named q ↔
        named.idxOf p < named.idxOf q := by
  intro cells quads named
  refine ⟨?_, fun p first q second => vertexNumber_lt_iff first second⟩
  let below := d.below r.level
  -- the quads of the cells and the crossed edges name the same corners in turn
  have points : vertexPoints cells below = firstNamed named :=
    congrArg firstNamed (corners_writtenQuads cells below).symm
  have triangles : quadSurface cells below =
      quads.flatMap (LatticeQuad.triangles id) :=
    (triangles_writtenQuads cells below).symm
  have ends := dualContouring_ends program r gradient room
  cases made : dualContouring d program r b with
  | error e =>
    rw [made] at ends
    exact ends
  | ok out =>
    rw [made] at ends
    obtain ⟨s, rfl, holds⟩ := ends
    rw [points, triangles] at holds
    refine ⟨?_, ?_, ?_⟩
    · have corners :
          {p | ∃ quad ∈ quads, p ∈ quad.corners} = {p | p ∈ named} := by
        ext p
        exact List.mem_flatMap.symm
      rw [corners, holds.vertexCount]
      exact bijOn_vertexNumber named
    · rw [holds.numbers, List.flatMap_assoc, List.map_flatMap]
      refine List.flatMap_congr fun quad _ => ?_
      exact (quad.triangleCorners_triangles (vertexNumber named)).symm
    · intro still p member position
      have middle : d.place program r = (d.field program r).middle := by
        rw [Density.place, still]
        rfl
      obtain ⟨placed, normal, normal_eq, at_number⟩ := holds.vertex member
      rw [middle] at placed normal_eq
      have found := (d.field program r).normalAt_of_normal normal_eq
      exact ⟨placed, normal, found, centralNormal_of_normalAt found, at_number⟩

theorem dualContouring_numbers_onePoint :
    ∃ out, dualContouring onePoint (.constant .zero) {}
        (.blank (Algorithm.dualContouring.capacity 2)) = .ok out ∧
      out.vertexCount = 8 ∧
      (out.writtenIndices.map UInt32.toNat).take 6 = [0, 1, 2, 0, 2, 3] ∧
      out.writtenPositions[2]? =
        some ((Vec3.mk 1.5 1.5 0.5).scale (cellSize 1.0 2)) := by
  have numbers := dualContouring_numbers (.constant .zero) {} (d := onePoint)
    rfl onePoint_room
  cases made : dualContouring onePoint (.constant .zero) {}
      (.blank (Algorithm.dualContouring.capacity 2)) with
  | error e =>
    rw [made] at numbers
    obtain ⟨⟨fault, -, hindrance⟩, -⟩ := numbers
    exact absurd hindrance (not_hindrance_constant (by decide))
  | ok out =>
    rw [made] at numbers
    obtain ⟨⟨shared, written, vertices⟩, -⟩ := numbers
    let quads := writtenQuads 2 (onePoint.below 0.0)
    let named := quads.flatMap LatticeQuad.corners
    have few : ∀ quad ∈ quads, ∀ p ∈ quad.corners,
        vertexNumber named p < 8 := by
      decide +kernel
    have last : (⟨1, 1, 1⟩ : Point) ∈ named ∧
        vertexNumber named ⟨1, 1, 1⟩ = 7 := by
      decide +kernel
    have third : (⟨1, 1, 0⟩ : Point) ∈ named ∧
        vertexNumber named ⟨1, 1, 0⟩ = 2 := by
      decide +kernel
    have first : (quads.flatMap fun quad =>
        (quad.triangles (vertexNumber named)).flatMap triangleCorners).take 6 =
          [0, 1, 2, 0, 2, 3] := by
      decide +kernel
    have middle : (Point.mk 1 1 0).toVec3 + .splat 0.5 = ⟨1.5, 1.5, 0.5⟩ := by
      decide +kernel
    refine ⟨out, rfl, ?_, ?_, ?_⟩
    · refine Nat.le_antisymm (Nat.le_of_not_lt fun more => ?_) ?_
      · obtain ⟨p, ⟨quad, member, corner⟩, number⟩ := shared.surjOn more
        exact Nat.lt_irrefl 8 (number.symm.trans_lt (few quad member p corner))
      · exact last.2.symm.trans_lt (shared.mapsTo (List.mem_flatMap.mp last.1))
    · rw [written]
      exact first
    · have placed : out.writtenPositions[vertexNumber named ⟨1, 1, 0⟩]? = _ :=
        (vertices rfl _ third.1).1
      rw [third.2] at placed
      rw [placed]
      exact congrArg (some <| Vec3.scale · _) middle

end FieldMesh.Mesh
