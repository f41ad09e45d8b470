import FieldMesh.Mesh.Cube

/-!
# Edges and faces of the lattice

Cells share their edges and faces. Here these have names of their own, by
where they are in the lattice and not by which cell they are seen from.

* `LatticeEdge`: the edge from a point to the next one along an axis;
* `Edge.inCell`: the edge of the lattice that an edge of a cell is;
* `LatticeFace`: the unit square at a point across an axis;
* `LatticeFace.cell_of_edges`: only the two cells on both sides of a face
  have two of its edges;
* `Point.dot`, `Point.cross`: products of integer vectors, for directions.
-/

namespace FieldMesh.Mesh

/-! ## Points -/

namespace Point

attribute [ext] Point

@[simp] theorem add_x (p q : Point) : (p + q).x = p.x + q.x := rfl

@[simp] theorem add_y (p q : Point) : (p + q).y = p.y + q.y := rfl

@[simp] theorem add_z (p q : Point) : (p + q).z = p.z + q.z := rfl

@[simp] theorem sub_x (p q : Point) : (p - q).x = p.x - q.x := rfl

@[simp] theorem sub_y (p q : Point) : (p - q).y = p.y - q.y := rfl

@[simp] theorem sub_z (p q : Point) : (p - q).z = p.z - q.z := rfl

theorem add_assoc (p q r : Point) : p + q + r = p + (q + r) := by
  ext <;> simp [Int.add_assoc]

theorem add_left_cancel {p q r : Point} (same : p + q = p + r) : q = r := by
  have x := congrArg Point.x same
  have y := congrArg Point.y same
  have z := congrArg Point.z same
  simp only [add_x, add_y, add_z] at x y z
  ext <;> omega

theorem add_right_cancel {p q r : Point} (same : p + r = q + r) : p = q := by
  have x := congrArg Point.x same
  have y := congrArg Point.y same
  have z := congrArg Point.z same
  simp only [add_x, add_y, add_z] at x y z
  ext <;> omega

theorem add_sub_cancel_right (p q : Point) : p + q - q = p := by
  ext <;> simp

theorem sub_add_cancel (p q : Point) : p - q + q = p := by
  ext <;> simp

theorem add_sub_cancel (p q : Point) : p + (q - p) = q := by
  ext <;> simp only [add_x, add_y, add_z, sub_x, sub_y, sub_z] <;> omega

/-- Every point is some way from every other one. -/
theorem exists_add (p q : Point) : ∃ r, p + r = q :=
  ⟨q - p, add_sub_cancel p q⟩

/-- The least corner of the region. -/
def origin : Point := ⟨0, 0, 0⟩

theorem add_origin (p : Point) : p + origin = p := by
  ext <;> simp [origin]

/-- The scalar product. -/
def dot (p q : Point) : Int := p.x * q.x + p.y * q.y + p.z * q.z

/-- The vector product. -/
def cross (p q : Point) : Point :=
  ⟨p.y * q.z - p.z * q.y, p.z * q.x - p.x * q.z, p.x * q.y - p.y * q.x⟩

end Point

/-! ## Axes -/

/-- An axis of the lattice. -/
inductive Axis where
  | x
  | y
  | z
  deriving DecidableEq, Repr

namespace Axis

/-- All axes. -/
def all : List Axis := [x, y, z]

theorem mem_all (axis : Axis) : axis ∈ all := by
  cases axis <;> decide

/-- One step along an axis. -/
def unit : Axis → Point
  | x => ⟨1, 0, 0⟩
  | y => ⟨0, 1, 0⟩
  | z => ⟨0, 0, 1⟩

theorem sub_unit_ne (p : Point) (axis : Axis) : p - axis.unit ≠ p := by
  intro same
  have x := congrArg Point.x same
  have y := congrArg Point.y same
  have z := congrArg Point.z same
  simp only [Point.sub_x, Point.sub_y, Point.sub_z] at x y z
  cases axis <;> simp only [unit] at x y z <;> omega

/-- The two axes across an axis, so that the three turn to the right. -/
def across : Axis → Axis × Axis
  | x => (y, z)
  | y => (z, x)
  | z => (x, y)

end Axis

/-- The coordinate of a point along an axis. -/
def Point.along (p : Point) : Axis → Int
  | .x => p.x
  | .y => p.y
  | .z => p.z

/-! ## Edges -/

/-- The edge of the lattice from a point to the next one along an axis. -/
structure LatticeEdge where
  base : Point
  axis : Axis
  deriving DecidableEq, Repr

namespace LatticeEdge

/-- The two points that an edge joins. -/
def ends (e : LatticeEdge) : List Point := [e.base, e.base + e.axis.unit]

/-- Twice the middle of an edge, which is no lattice point. -/
def middle (e : LatticeEdge) : Point := e.base + e.base + e.axis.unit

/-- The edge that is `p` further on. -/
def shift (p : Point) (e : LatticeEdge) : LatticeEdge := ⟨p + e.base, e.axis⟩

theorem shift_injective (p : Point) : Function.Injective (shift p) := by
  rintro ⟨base, axis⟩ ⟨base', axis'⟩ same
  obtain ⟨bases, rfl⟩ := LatticeEdge.mk.inj same
  have equal : base = base' := Point.add_left_cancel bases
  rw [equal]

theorem shift_shift (p q : Point) (e : LatticeEdge) :
    (e.shift q).shift p = e.shift (p + q) := by
  unfold shift
  rw [Point.add_assoc]

/-- Whether a point is to the left on the way from the middle of an edge to
that of another one, as seen from where `out` points to. -/
def LeftOf (out : Point) (e f : LatticeEdge) (p : Point) : Prop :=
  0 < out.dot ((f.middle - e.middle).cross (p + p - e.middle))

instance (out : Point) (e f : LatticeEdge) (p : Point) :
    Decidable (LeftOf out e f p) :=
  inferInstanceAs (Decidable (_ < _))

theorem leftOf_shift {out p q : Point} {e f : LatticeEdge} :
    LeftOf out (e.shift p) (f.shift p) (p + q) ↔ LeftOf out e f q := by
  have direction : (f.shift p).middle - (e.shift p).middle =
      f.middle - e.middle := by
    ext <;> simp [middle, shift] <;> omega
  have offset : p + q + (p + q) - (e.shift p).middle = q + q - e.middle := by
    ext <;> simp [middle, shift] <;> omega
  rw [LeftOf, direction, offset, LeftOf]

theorem mem_ends_shift {p q : Point} {e : LatticeEdge} :
    p + q ∈ (e.shift p).ends ↔ q ∈ e.ends := by
  simp only [ends, shift, List.mem_cons, List.not_mem_nil, or_false,
    Point.add_assoc]
  constructor
  · rintro (first | second)
    · exact .inl (Point.add_left_cancel first)
    · exact .inr (Point.add_left_cancel second)
  · rintro (rfl | rfl)
    · exact .inl rfl
    · exact .inr rfl

end LatticeEdge

/-- The edge of the lattice that an edge of the cell at the origin is. -/
def Edge.placed (e : Edge) : LatticeEdge where
  base :=
    let a := e.ends.1.offset
    let b := e.ends.2.offset
    ⟨min a.x b.x, min a.y b.y, min a.z b.z⟩
  axis := if e.direction.x ≠ 0 then .x else if e.direction.y ≠ 0 then .y else .z

/-- The edge of the lattice that an edge of a cell is. -/
def Edge.inCell (cell : Point) (e : Edge) : LatticeEdge := e.placed.shift cell

/-- It joins the corners that the edge of the cell joins. -/
theorem Edge.mem_ends_inCell {cell p : Point} {e : Edge} :
    p ∈ (e.inCell cell).ends ↔
      p = cell + e.ends.1.offset ∨ p = cell + e.ends.2.offset := by
  have placed : ∀ e : Edge,
      e.placed.ends = [e.ends.1.offset, e.ends.2.offset] ∨
        e.placed.ends = [e.ends.2.offset, e.ends.1.offset] := by
    decide
  have moved : (e.inCell cell).ends = e.placed.ends.map (cell + ·) := by
    simp [inCell, LatticeEdge.ends, LatticeEdge.shift, Point.add_assoc]
  rw [moved]
  rcases placed e with same | same
  · simp [same]
  · simp [same, Or.comm]

/-! ## Faces -/

/-- The unit square of the lattice at a point, across an axis. -/
structure LatticeFace where
  base : Point
  axis : Axis
  deriving DecidableEq, Repr

namespace LatticeFace

/-- The four edges around a face. -/
def edges (f : LatticeFace) : List LatticeEdge :=
  let (u, v) := f.axis.across
  [⟨f.base, u⟩, ⟨f.base + u.unit, v⟩, ⟨f.base + v.unit, u⟩, ⟨f.base, v⟩]

/-- Whether a face lies on the outside of a region. -/
def Outer (cells : Nat) (f : LatticeFace) : Prop :=
  let (u, v) := f.axis.across
  (f.base.along f.axis = 0 ∨ f.base.along f.axis = cells) ∧
    (0 ≤ f.base.along u ∧ f.base.along u < cells) ∧
    (0 ≤ f.base.along v ∧ f.base.along v < cells)

instance (cells : Nat) (f : LatticeFace) : Decidable (Outer cells f) :=
  inferInstanceAs (Decidable ((_ ∨ _) ∧ (_ ∧ _) ∧ (_ ∧ _)))

/-- The face that is `p` further on. -/
def shift (p : Point) (f : LatticeFace) : LatticeFace := ⟨p + f.base, f.axis⟩

theorem edges_shift (p : Point) (f : LatticeFace) :
    (f.shift p).edges = f.edges.map (·.shift p) := by
  simp [edges, shift, LatticeEdge.shift, Point.add_assoc]

/-- The face of the cell at the origin at the lower end of an axis. -/
def low (axis : Axis) : LatticeFace := ⟨.origin, axis⟩

/-- The face of the cell at the origin at the upper end of an axis. -/
def high (axis : Axis) : LatticeFace := ⟨axis.unit, axis⟩

/-- The faces of the cell at the origin. -/
def around : List LatticeFace := Axis.all.map low ++ Axis.all.map high

theorem low_shift (p : Point) (axis : Axis) :
    (low axis).shift p = ⟨p, axis⟩ := by
  rw [shift, low, Point.add_origin]

/-- The faces of a cell, each with the direction out of the cell. -/
def ofCell (cell : Point) : List (LatticeFace × Point) :=
  Axis.all.flatMap fun axis =>
    [((low axis).shift cell, .origin - axis.unit),
      ((high axis).shift cell, axis.unit)]

/-- The four faces around an edge. -/
def ofEdge (e : LatticeEdge) : List LatticeFace :=
  let (u, v) := e.axis.across
  [⟨e.base, u⟩, ⟨e.base - v.unit, u⟩, ⟨e.base, v⟩, ⟨e.base - u.unit, v⟩]

theorem mem_ofEdge {f : LatticeFace} {e : LatticeEdge} (has : e ∈ f.edges) :
    f ∈ ofEdge e := by
  obtain ⟨base, axis⟩ := f
  cases axis <;>
  · simp only [edges, Axis.across, List.mem_cons, List.not_mem_nil,
      or_false] at has
    rcases has with rfl | rfl | rfl | rfl <;>
      simp [ofEdge, Axis.across, Point.add_sub_cancel_right]

/-- A face with two edges of the cell at the origin is one of its faces. -/
theorem eq_low_or_high {f : LatticeFace} {a b : Edge} (apart : a ≠ b)
    (first : a.placed ∈ f.edges) (second : b.placed ∈ f.edges) :
    f = low f.axis ∨ f = high f.axis := by
  have tried : ∀ a b : Edge, a ≠ b → ∀ f ∈ ofEdge a.placed,
      b.placed ∈ f.edges → f = low f.axis ∨ f = high f.axis := by
    decide
  exact tried a b apart f (mem_ofEdge first) second

/-- Only the two cells on both sides of a face have two of its edges. -/
theorem cell_of_edges {f : LatticeFace} {cell : Point} {a b : Edge}
    (apart : a ≠ b) (first : a.inCell cell ∈ f.edges)
    (second : b.inCell cell ∈ f.edges) :
    f = (low f.axis).shift cell ∨ f = (high f.axis).shift cell := by
  obtain ⟨base, axis⟩ := f
  have moved : (⟨base, axis⟩ : LatticeFace) =
      shift cell ⟨base - cell, axis⟩ := by
    rw [shift, Point.add_sub_cancel]
  have back : ∀ e : Edge, e.inCell cell ∈ edges ⟨base, axis⟩ →
      e.placed ∈ edges ⟨base - cell, axis⟩ := by
    intro e has
    rw [moved, edges_shift] at has
    obtain ⟨e', member, same⟩ := List.mem_map.mp has
    rw [LatticeEdge.shift_injective cell same] at member
    exact member
  rcases eq_low_or_high apart (back a first) (back b second) with same | same
  · exact .inl (moved.trans (congrArg (shift cell) same))
  · exact .inr (moved.trans (congrArg (shift cell) same))

end LatticeFace

end FieldMesh.Mesh
