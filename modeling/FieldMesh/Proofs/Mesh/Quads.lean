import FieldMesh.Mesh.DualContouring
import FieldMesh.Proofs.Mesh.CellSurface

/-!
# Quads around the edges of the lattice

Every crossed edge of the lattice has a quad around it, whose corners are the
points whose cells share the edge. This tells the surface of dual contouring
without cells and codes.

* `LatticeEdge.anchors`: the corners of the quad around an edge;
* `crossedEdges`: the edges that get a quad, in the order in which they do;
* `mem_crossedEdges`, `nodup_crossedEdges`: these are the crossed edges that
  are far enough inside, each once;
* `normal_of_edgeTriangles`: triangles face the end that is below the level.
-/

namespace FieldMesh.Mesh

/-! ## Around an edge -/

namespace LatticeEdge

/-- Whether an edge joins different sides of the level. -/
def crossed (below : Point → Bool) (e : LatticeEdge) : Bool :=
  below e.base != below (e.base + e.axis.unit)

/-- The points whose cells share an edge, in turn around it. -/
def anchors (e : LatticeEdge) : Point × Point × Point × Point :=
  let (u, v) := e.axis.across
  (e.base - u.unit - v.unit, e.base - v.unit, e.base, e.base - u.unit)

/-- They are the points whose cells have the edge. -/
theorem mem_anchors {e : LatticeEdge} {p : Point} :
    (∃ a : Edge, a.inCell p = e) ↔
      p = e.anchors.1 ∨ p = e.anchors.2.1 ∨ p = e.anchors.2.2.1 ∨
        p = e.anchors.2.2.2 := by
  -- where the twelve edges of a cell lie, by looking at each
  have bases : ∀ a : Edge, a.placed.base = a.placed.axis.across.1.unit +
          a.placed.axis.across.2.unit ∨
      a.placed.base = a.placed.axis.across.2.unit ∨ a.placed.base = .origin ∨
      a.placed.base = a.placed.axis.across.1.unit := by
    decide
  have placed : ∀ axis ∈ Axis.all,
      ∀ base ∈ [axis.across.1.unit + axis.across.2.unit, axis.across.2.unit,
        .origin, axis.across.1.unit], ∃ a : Edge, a.placed = ⟨base, axis⟩ := by
    decide
  constructor
  · rintro ⟨a, rfl⟩
    rcases bases a with base | base | base | base
    · refine .inl ?_
      simp only [anchors, Edge.inCell, shift, base]
      ext <;> simp <;> omega
    · refine .inr (.inl ?_)
      simp only [anchors, Edge.inCell, shift, base]
      ext <;> simp
    · refine .inr (.inr (.inl ?_))
      simp only [anchors, Edge.inCell, shift, base]
      exact (Point.add_origin p).symm
    · refine .inr (.inr (.inr ?_))
      simp only [anchors, Edge.inCell, shift, base]
      ext <;> simp
  · obtain ⟨base, axis⟩ := e
    have owned : ∀ q ∈ [axis.across.1.unit + axis.across.2.unit,
        axis.across.2.unit, .origin, axis.across.1.unit], p = base - q →
        ∃ a : Edge, a.inCell p = ⟨base, axis⟩ := by
      rintro q member rfl
      obtain ⟨a, same⟩ := placed axis axis.mem_all q member
      refine ⟨a, ?_⟩
      rw [Edge.inCell, same, shift, Point.sub_add_cancel]
    rintro (rfl | rfl | rfl | rfl)
    · refine owned _ (List.mem_cons_self) ?_
      ext <;> simp [anchors] <;> omega
    · exact owned axis.across.2.unit (by simp) rfl
    · refine owned .origin (by simp) ?_
      ext <;> simp [Point.origin]
    · exact owned axis.across.1.unit (by simp) rfl

/-- The same as a list. -/
def anchorList (e : LatticeEdge) : List Point :=
  [e.anchors.1, e.anchors.2.1, e.anchors.2.2.1, e.anchors.2.2.2]

theorem mem_anchorList {e : LatticeEdge} {p : Point} :
    p ∈ e.anchorList ↔ ∃ a : Edge, a.inCell p = e := by
  rw [mem_anchors]
  simp [anchorList]

/-- Whether the quad around an edge has its corners in the region. -/
def Inside (cells : Nat) (e : LatticeEdge) : Prop :=
  let (u, v) := e.axis.across
  (1 ≤ e.base.along u ∧ e.base.along u ≤ cells) ∧
    (1 ≤ e.base.along v ∧ e.base.along v ≤ cells) ∧
    (0 ≤ e.base.along e.axis ∧ e.base.along e.axis < cells)

end LatticeEdge

/-- The two triangles of the quad around a crossed edge. -/
def edgeTriangles (below : Point → Bool) (e : LatticeEdge) :
    List (Point × Point × Point) :=
  let (a, b, c, d) := e.anchors
  Surface.quadTriangles (below (e.base + e.axis.unit)) a b c d

theorem length_edgeTriangles (below : Point → Bool) (e : LatticeEdge) :
    (edgeTriangles below e).length = 2 := by
  simp only [edgeTriangles, Surface.quadTriangles]
  split <;> rfl

/-- The edge along an axis at the far corner of a cell. -/
def farEdge (cell : Point) (axis : Axis) : LatticeEdge :=
  ⟨cell + (axis.across.1.unit + axis.across.2.unit), axis⟩

/-- The edges that get a quad, in the order in which they do. -/
def crossedEdges (cells : Nat) (below : Point → Bool) : List LatticeEdge :=
  (cellPoints cells).flatMap fun cell =>
    ([.z, .y, .x].map (farEdge cell)).filter (LatticeEdge.crossed below)

theorem mem_crossedEdges {cells : Nat} {below : Point → Bool}
    {e : LatticeEdge} :
    e ∈ crossedEdges cells below ↔ e.Inside cells ∧ e.crossed below = true := by
  -- the cell that gives an edge its quad has it at its far corner
  have far : (∃ cell : Point, cell.IsCell cells ∧ farEdge cell e.axis = e) ↔
      e.Inside cells := by
    obtain ⟨⟨x, y, z⟩, axis⟩ := e
    constructor
    · rintro ⟨⟨x', y', z'⟩, isCell, same⟩
      obtain ⟨base, -⟩ := LatticeEdge.mk.inj same
      obtain ⟨hx, hy, hz⟩ := Point.mk.inj base
      cases axis <;>
      · simp only [Axis.across, Axis.unit, Point.add_x, Point.add_y,
          Point.add_z] at hx hy hz
        simp only [Point.IsCell] at isCell
        simp only [LatticeEdge.Inside, Axis.across, Point.along]
        omega
    · intro inside
      refine ⟨⟨x, y, z⟩ - (axis.across.1.unit + axis.across.2.unit), ?_, ?_⟩
      · cases axis <;>
        · simp only [LatticeEdge.Inside, Axis.across, Point.along] at inside
          simp only [Point.IsCell, Axis.across, Axis.unit, Point.sub_x,
            Point.sub_y, Point.sub_z, Point.add_x, Point.add_y, Point.add_z]
          omega
      · simp only [farEdge, Point.sub_add_cancel]
  rw [crossedEdges, List.mem_flatMap, ← far]
  constructor
  · rintro ⟨cell, isCell, member⟩
    obtain ⟨member, crossed⟩ := List.mem_filter.mp member
    obtain ⟨axis, -, rfl⟩ := List.mem_map.mp member
    exact ⟨⟨cell, mem_cellPoints.mp isCell, rfl⟩, crossed⟩
  · rintro ⟨⟨cell, isCell, same⟩, crossed⟩
    refine ⟨cell, mem_cellPoints.mpr isCell, List.mem_filter.mpr ⟨?_, crossed⟩⟩
    refine List.mem_map.mpr ⟨e.axis, ?_, same⟩
    cases e.axis <;> decide

/-- The triangles of a region. -/
def quadSurface (cells : Nat) (below : Point → Bool) :
    List (Point × Point × Point) :=
  (crossedEdges cells below).flatMap (edgeTriangles below)

theorem farEdge_injective {p q : Point} {axis axis' : Axis}
    (same : farEdge p axis = farEdge q axis') : p = q ∧ axis = axis' := by
  obtain ⟨bases, rfl⟩ := LatticeEdge.mk.inj same
  exact ⟨Point.add_right_cancel bases, rfl⟩

theorem nodup_crossedEdges (cells : Nat) (below : Point → Bool) :
    (crossedEdges cells below).Nodup := by
  refine List.nodup_flatMap.mpr ⟨fun cell _ => ?_, ?_⟩
  · refine List.Nodup.filter _ (List.Nodup.map (fun axis axis' same => ?_) ?_)
    · exact (farEdge_injective same).2
    · decide
  · refine (nodup_cellPoints cells).imp fun {p q} apart e first second => ?_
    obtain ⟨axis, -, rfl⟩ := List.mem_map.mp (List.mem_filter.mp first).1
    obtain ⟨axis', -, same⟩ := List.mem_map.mp (List.mem_filter.mp second).1
    exact apart (farEdge_injective same).1.symm

/-! ## Directions -/

/-- The vector product of two sides of a triangle points along the edge,
upwards if the upper end is below the level. -/
theorem cross_of_edgeTriangles {below : Point → Bool} {e : LatticeEdge}
    {a b c : Point} (member : (a, b, c) ∈ edgeTriangles below e) :
    (b - a).cross (c - a) =
      if below (e.base + e.axis.unit) then e.axis.unit
      else .origin - e.axis.unit := by
  obtain ⟨⟨x, y, z⟩, axis⟩ := e
  simp only [edgeTriangles, Surface.quadTriangles] at member
  split at member
  all_goals
    next upper =>
    simp only [upper, List.mem_cons, List.not_mem_nil, or_false,
      Prod.mk.injEq] at member ⊢
    rcases member with ⟨rfl, rfl, rfl⟩ | ⟨rfl, rfl, rfl⟩ <;> cases axis <;>
      ext <;> simp [LatticeEdge.anchors, Axis.across, Axis.unit, Point.cross,
        Point.origin]

/-- Triangles face the end that is below the level: their vector product is
the way to it from the other end. -/
theorem normal_of_edgeTriangles {below : Point → Bool} {e : LatticeEdge}
    {a b c : Point} (member : (a, b, c) ∈ edgeTriangles below e) {p q : Point}
    (first : p ∈ e.ends) (second : q ∈ e.ends) (isBelow : below p = true)
    (notBelow : below q = false) : (b - a).cross (c - a) = p - q := by
  rw [cross_of_edgeTriangles member]
  obtain ⟨base, axis⟩ := e
  simp only [LatticeEdge.ends, List.mem_cons, List.not_mem_nil, or_false]
    at first second
  rcases first with rfl | rfl <;> rcases second with rfl | rfl
  · rw [isBelow] at notBelow
    cases notBelow
  · rw [notBelow]
    ext <;> simp [Point.origin]
  · rw [isBelow]
    ext <;> simp
  · rw [isBelow] at notBelow
    cases notBelow

/-- The triangles around an edge have the points around it for corners. -/
theorem mem_corners_edgeTriangles {below : Point → Bool} {e : LatticeEdge}
    {p : Point} :
    (∃ t ∈ edgeTriangles below e, p ∈ triangleCorners t) ↔
      ∃ a : Edge, a.inCell p = e := by
  rw [LatticeEdge.mem_anchors]
  simp only [edgeTriangles, Surface.quadTriangles]
  split <;> simp [triangleCorners] <;> tauto

end FieldMesh.Mesh
