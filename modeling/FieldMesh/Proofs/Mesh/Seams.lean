import FieldMesh.Proofs.Mesh.Crossing
import FieldMesh.Proofs.Mesh.MarchingCubes

/-!
# Seams between cells

The cells around an edge of the lattice compute its crossing point each on
their own. Those that run the edge the same way get the same point. The others
count from its other end, and get the same point up to rounding.

* `wayPoint`: a crossing point, counted from an end of its edge;
* `Density.crossingPoint_way`: the ways in which cells compute it;
* `Vec3.NearAlong`: points that are the same up to rounding;
* **main result**: `crossingPoint_meets`;
* `crossingPoint_apart`: that they are not the same bit for bit.
-/

namespace FieldMesh

open Binary32

/-! ## Coordinates -/

/-- The coordinate of a vector along an axis. -/
def Vec3.along (v : Vec3) : Mesh.Axis → Float32
  | .x => v.x
  | .y => v.y
  | .z => v.z

/-- Points with the same coordinates across an axis, whose finite coordinates
along it differ by at most a bound. -/
def Vec3.NearAlong (axis : Mesh.Axis) (bound : ℚ) (p q : Vec3) : Prop :=
  (∀ other, other ≠ axis → p.along other = q.along other) ∧
    ((p.along axis).isFinite = true → (q.along axis).isFinite = true →
      |value (p.along axis) - value (q.along axis)| ≤ bound)

theorem Vec3.NearAlong.symm {axis : Mesh.Axis} {bound : ℚ} {p q : Vec3}
    (near : NearAlong axis bound p q) : NearAlong axis bound q p := by
  refine ⟨fun other apart => (near.1 other apart).symm, fun finite finite' => ?_⟩
  rw [abs_sub_comm]
  exact near.2 finite' finite

theorem Vec3.nearAlong_self (axis : Mesh.Axis) {bound : ℚ} (nonneg : 0 ≤ bound) (p : Vec3) :
    NearAlong axis bound p p := by
  refine ⟨fun _ _ => rfl, fun _ _ => ?_⟩
  rwa [sub_self, abs_zero]

namespace Mesh

/-! ## Ways along an edge -/

theorem Point.along_add (p q : Point) (axis : Axis) :
    (p + q).along axis = p.along axis + q.along axis := by
  cases axis <;> rfl

theorem Point.along_sub (p q : Point) (axis : Axis) :
    (p - q).along axis = p.along axis - q.along axis := by
  cases axis <;> rfl

theorem Point.along_origin (axis : Axis) : Point.origin.along axis = 0 := by
  cases axis <;> rfl

theorem Axis.along_unit_self (axis : Axis) : axis.unit.along axis = 1 := by
  cases axis <;> rfl

theorem Axis.along_unit_of_ne {axis other : Axis} (apart : axis ≠ other) :
    axis.unit.along other = 0 := by
  revert apart
  cases axis <;> cases other <;> decide

theorem Axis.unit_ne (axis : Axis) : axis.unit ≠ .origin - axis.unit := by
  cases axis <;> decide

/-- The crossing point on a way from an end of an edge. -/
def wayPoint (start way : Point) (t size : Float32) : Vec3 :=
  (start.toVec3 + way.toVec3.scale t).scale size

theorem along_wayPoint (start way : Point) (t size : Float32) (axis : Axis) :
    (wayPoint start way t size).along axis =
      coordinate (start.along axis) (way.along axis) t size := by
  cases axis <;> rfl

/-- Edges of cells run up or down the edge of the lattice. -/
theorem Edge.placed_ways (e : Edge) :
    (e.direction = e.placed.axis.unit ∧ e.ends.1.offset = e.placed.base ∧
        e.ends.2.offset = e.placed.base + e.placed.axis.unit) ∨
      (e.direction = .origin - e.placed.axis.unit ∧
        e.ends.1.offset = e.placed.base + e.placed.axis.unit ∧
        e.ends.2.offset = e.placed.base) := by
  revert e
  decide

/-- Cells above each other, and all cells around an upright edge, run it the
same way. -/
theorem Edge.direction_eq {a b : Edge} (axis : a.placed.axis = b.placed.axis)
    (beside : a.placed.axis = .y ∨
      a.placed.base.x = b.placed.base.x ∧ a.placed.base.z = b.placed.base.z) :
    a.direction = b.direction := by
  revert a b
  decide

theorem direction_eq_of_inCell {cell cell' : Point} {a b : Edge}
    (same : a.inCell cell = b.inCell cell')
    (beside : a.placed.axis = .y ∨ cell.x = cell'.x ∧ cell.z = cell'.z) :
    a.direction = b.direction := by
  have bases : cell + a.placed.base = cell' + b.placed.base :=
    congrArg LatticeEdge.base same
  have x := congrArg Point.x bases
  have z := congrArg Point.z bases
  simp only [Point.add_x, Point.add_z] at x z
  have axis : (a.inCell cell).axis = (b.inCell cell').axis := by rw [same]
  refine Edge.direction_eq axis (beside.imp_right ?_)
  rintro ⟨sameX, sameZ⟩
  exact ⟨by omega, by omega⟩

section

variable {d : Density} {e : LatticeEdge} {cell : Point} {a : Edge} {v w size : Float32}

/-- A cell computes a crossing point from the lower end of the edge, or from
the upper one. -/
theorem Density.crossingPoint_way (isCell : cell.IsCell d.lattice.cells)
    (level size : Float32) (named : a.inCell cell = e) (lower : d.value e.base = .ok v)
    (upper : d.value (e.base + e.axis.unit) = .ok w) :
    (a.direction = e.axis.unit ∧ d.crossingPoint level size cell a =
        wayPoint e.base e.axis.unit (crossing v w level) size) ∨
      (a.direction = .origin - e.axis.unit ∧ d.crossingPoint level size cell a =
        wayPoint (e.base + e.axis.unit) (.origin - e.axis.unit)
          (crossing w v level) size) := by
  obtain ⟨corners, read, each⟩ := d.corners_read isCell
  have point : d.crossingPoint level size cell a =
      wayPoint (cell + a.ends.1.offset) a.direction
        (crossing (corners.get a.ends.1) (corners.get a.ends.2) level) size := by
    rw [crossingPoint, read]
    rfl
  subst named
  have base : (a.inCell cell).base = cell + a.placed.base := rfl
  have axis : (a.inCell cell).axis = a.placed.axis := rfl
  rw [base] at lower
  rw [base, axis, Point.add_assoc] at upper
  rw [base, axis, Point.add_assoc, point]
  rcases a.placed_ways with ⟨way, first, second⟩ | ⟨way, first, second⟩
  · rw [← first, each] at lower
    rw [← second, each] at upper
    rw [way, ← first, Except.ok.inj lower, Except.ok.inj upper]
    exact .inl ⟨rfl, rfl⟩
  · rw [← second, each] at lower
    rw [← first, each] at upper
    rw [way, ← first, Except.ok.inj lower, Except.ok.inj upper]
    exact .inr ⟨rfl, rfl⟩

/-- Edges of cells start at points of the region, before its end. -/
theorem base_of_inCell (isCell : cell.IsCell d.lattice.cells) (named : a.inCell cell = e) :
    (∀ axis, 0 ≤ e.base.along axis) ∧ e.base.along e.axis < d.lattice.cells := by
  have offsets : (∀ a : Edge, ∀ axis ∈ Axis.all, 0 ≤ a.placed.base.along axis) ∧
      ∀ a : Edge, a.placed.base.along a.placed.axis = 0 := by
    decide
  obtain ⟨⟨x, x'⟩, ⟨y, y'⟩, ⟨z, z'⟩⟩ := isCell
  have moved (axis : Axis) : e.base.along axis =
      cell.along axis + a.placed.base.along axis := by
    rw [← named]
    exact Point.along_add _ _ _
  have inside (axis : Axis) : 0 ≤ cell.along axis ∧ cell.along axis < d.lattice.cells := by
    cases axis
    · exact ⟨x, x'⟩
    · exact ⟨y, y'⟩
    · exact ⟨z, z'⟩
  refine ⟨fun axis => ?_, ?_⟩
  · have := offsets.1 a axis axis.mem_all
    have := (inside axis).1
    rw [moved]
    omega
  · have same : a.placed.axis = e.axis := by rw [← named]; rfl
    have := offsets.2 a
    rw [same] at this
    rw [moved, this]
    have := (inside e.axis).2
    omega

/-- The ends of an edge of a cell can be read. -/
theorem Density.ends_read (isCell : cell.IsCell d.lattice.cells)
    (named : a.inCell cell = e) :
    ∃ v w, d.value e.base = .ok v ∧ d.value (e.base + e.axis.unit) = .ok w := by
  obtain ⟨corners, -, each⟩ := d.corners_read isCell
  subst named
  have first := each a.ends.1
  have second := each a.ends.2
  have upper : (a.inCell cell).base + (a.inCell cell).axis.unit =
      cell + (a.placed.base + a.placed.axis.unit) := Point.add_assoc _ _ _
  have lower : (a.inCell cell).base = cell + a.placed.base := rfl
  rw [upper, lower]
  rcases a.placed_ways with ⟨-, start, stop⟩ | ⟨-, start, stop⟩ <;>
    rw [start] at first <;> rw [stop] at second
  · exact ⟨_, _, first, second⟩
  · exact ⟨_, _, second, first⟩

/-- Regions that can be stored have few cells along an axis. -/
theorem cells_lt_of_checkStorage {l : Lattice} (stored : l.checkStorage = .ok ()) :
    l.cells < 2 ^ 22 := by
  have few : ¬ UInt64.size / 2 ≤ 4 * l.volume := by
    intro many
    rw [Lattice.checkStorage, if_pos many] at stored
    cases checked : l.checkSize <;> rw [checked] at stored <;> cases stored
  by_contra many
  have wide : 2 ^ 22 ≤ l.side := by
    unfold Lattice.side
    omega
  have large : 2 ^ 22 * 2 ^ 22 * 2 ^ 22 ≤ l.volume :=
    Nat.mul_le_mul (Nat.mul_le_mul wide wide) wide
  have size : UInt64.size = 2 ^ 64 := rfl
  omega

/-- A cell has a finite size that is not negative. -/
theorem value_cellSize {scale : Float32} {cells : Nat} (few : cells < 2 ^ 22)
    (pos : 0 < cells) (finite : scale.isFinite = true) (positive : 0.0 < scale) :
    (cellSize scale cells).isFinite = true ∧ 0 ≤ value (cellSize scale cells) := by
  obtain ⟨finiteCells, whole⟩ := value_ofNat (n := cells) (by omega)
  have pos' : (1 : ℚ) ≤ cells := by exact_mod_cast pos
  rw [lt_iff_value_lt (by decide) finite] at positive
  have zero : value 0.0 = 0 := rfl
  have nonneg : 0 ≤ value scale := zero.ge.trans positive.le
  have rounded : IsRounded (cellSize scale cells) (value scale / cells) := by
    have divided := isRounded_div finite finiteCells (by rw [whole]; linarith)
    rwa [whole] at divided
  have smaller : |value scale / cells| ≤ |value scale| :=
    abs_le_abs_of_nonneg (div_nonneg nonneg (by linarith)) (div_le_self nonneg pos')
  have finiteSize := rounded.finite_of_le (isRounded_self finite) smaller finite
  exact ⟨finiteSize, rounded.nonneg finiteSize (div_nonneg nonneg (by linarith))⟩

/-- The two ways along an edge lead to the same point, up to rounding. -/
theorem wayPoint_near {k : Nat} (base : e.base.along e.axis = k) (small : k + 1 < 2 ^ 23)
    (inside : ∀ axis, 0 ≤ e.base.along axis) {t t' : Float32} (shares : Shares t t')
    (finite : size.isFinite = true) (nonneg : 0 ≤ value size) :
    Vec3.NearAlong e.axis ((k + 2) * value size / 2 ^ 22 + 2 ^ (-149 : ℤ))
      (wayPoint e.base e.axis.unit t size)
      (wayPoint (e.base + e.axis.unit) (.origin - e.axis.unit) t' size) := by
  refine ⟨fun axis apart => ?_, ?_⟩
  · have across : e.axis.unit.along axis = 0 := Axis.along_unit_of_ne apart.symm
    rw [along_wayPoint, along_wayPoint, Point.along_add, Point.along_sub, across,
      Point.along_origin, Int.add_zero, Int.sub_zero]
    exact coordinate_across (inside axis) shares.finite shares.finite' size
  · rw [along_wayPoint, along_wayPoint, Point.along_add, Point.along_sub,
      Axis.along_unit_self, Point.along_origin, base]
    exact coordinate_along small shares finite nonneg

end

/-! ## Cells around an edge -/

theorem Density.isFinite_of_value {d : Density} {p : Point} {v : Float32}
    (finite : d.values.all Float32.isFinite = true) (read : d.value p = .ok v) :
    v.isFinite = true := by
  unfold value at read
  split at read
  · cases read
    exact Vector.all_eq_true.mp finite _ _
  · cases read

/-- **Seams between cells.** Cells above each other, and all cells around an
upright edge, compute the same crossing point for an edge that they share. Any
two cells compute the same point up to rounding, if the densities at the ends
have a finite difference: the coordinates across the edge are the same, and
finite ones along it differ by at most `k + 2` parts of a cell in `2 ^ 22` and
by `2 ^ -149`, where the edge starts `k` cells along its axis. -/
theorem crossingPoint_meets {d : Density} {level scale : Float32} {e : LatticeEdge}
    {cell cell' : Point} {a b : Edge} (stored : d.lattice.checkStorage = .ok ())
    (finite : d.values.all Float32.isFinite = true) (finiteLevel : level.isFinite = true)
    (finiteScale : scale.isFinite = true) (positive : 0.0 < scale)
    (differ : d.below level e.base ≠ d.below level (e.base + e.axis.unit))
    (isCell : cell.IsCell d.lattice.cells) (isCell' : cell'.IsCell d.lattice.cells)
    (first : a.inCell cell = e) (second : b.inCell cell' = e) :
    let size := cellSize scale d.lattice.cells
    let point := d.crossingPoint level size cell a
    let point' := d.crossingPoint level size cell' b
    (e.axis = .y ∨ cell.x = cell'.x ∧ cell.z = cell'.z → point = point') ∧
      ∀ v w, d.value e.base = .ok v → d.value (e.base + e.axis.unit) = .ok w →
        (w - v).isFinite = true →
        point.NearAlong e.axis
          ((e.base.along e.axis + 2) * value size / 2 ^ 22 + 2 ^ (-149 : ℤ)) point' := by
  intro size point point'
  obtain ⟨inside, inRegion⟩ := base_of_inCell isCell first
  have ways {v w} (lower : d.value e.base = .ok v)
      (upper : d.value (e.base + e.axis.unit) = .ok w) :=
    And.intro (d.crossingPoint_way isCell level size first lower upper)
      (d.crossingPoint_way isCell' level size second lower upper)
  constructor
  · intro beside
    obtain ⟨v, w, lower, upper⟩ := d.ends_read isCell first
    have same := direction_eq_of_inCell (first.trans second.symm)
      (beside.imp_left fun upright => (congrArg LatticeEdge.axis first).trans upright)
    have other := e.axis.unit_ne
    obtain ⟨⟨way, here⟩ | ⟨way, here⟩, ⟨way', there⟩ | ⟨way', there⟩⟩ := ways lower upper
    · exact here.trans there.symm
    · exact absurd (way.symm.trans (same.trans way')) other
    · exact absurd (way'.symm.trans (same.symm.trans way)) other
    · exact here.trans there.symm
  · intro v w lower upper bounded
    obtain ⟨k, base⟩ := Int.eq_ofNat_of_zero_le (inside e.axis)
    have small := cells_lt_of_checkStorage stored
    obtain ⟨finiteSize, nonneg⟩ := value_cellSize small (by omega) finiteScale positive
    have shares : Shares (crossing v w level) (crossing w v level) := by
      refine crossing_shares (d.isFinite_of_value finite lower)
        (d.isFinite_of_value finite upper) finiteLevel bounded fun alike => differ ?_
      rw [Density.below, lower, Density.below, upper]
      exact decide_eq_decide.mpr alike
    have near := wayPoint_near base (by omega) inside shares finiteSize nonneg
    have bound : (0 : ℚ) ≤ (k + 2) * value size / 2 ^ 22 + 2 ^ (-149 : ℤ) := by positivity
    rw [base, Int.cast_natCast]
    obtain ⟨⟨-, here⟩ | ⟨-, here⟩, ⟨-, there⟩ | ⟨-, there⟩⟩ := ways lower upper <;>
      simp only [point, point', here, there]
    · exact Vec3.nearAlong_self _ bound _
    · exact near
    · exact near.symm
    · exact Vec3.nearAlong_self _ bound _

/-- Densities that rise through zero along x, at a third of the way. -/
def slanted : Density :=
  ⟨⟨2, .none⟩, #v[-1.0, 2.0, 5.0, -1.0, 2.0, 5.0, -1.0, 2.0, 5.0,
    -1.0, 2.0, 5.0, -1.0, 2.0, 5.0, -1.0, 2.0, 5.0,
    -1.0, 2.0, 5.0, -1.0, 2.0, 5.0, -1.0, 2.0, 5.0]⟩

theorem crossingPoint_meets_slanted :
    (slanted.crossingPoint 0.0 (cellSize 2.0 2) ⟨0, 0, 0⟩ 2).NearAlong .x
      ((0 + 2) * value (cellSize 2.0 2) / 2 ^ 22 + 2 ^ (-149 : ℤ))
      (slanted.crossingPoint 0.0 (cellSize 2.0 2) ⟨0, 0, 1⟩ 0) := by
  obtain ⟨-, near⟩ := @crossingPoint_meets slanted 0.0 2.0 ⟨⟨0, 0, 1⟩, .x⟩ ⟨0, 0, 0⟩
    ⟨0, 0, 1⟩ 2 0 (by decide) (by decide +kernel) (by decide) (by decide) (by decide)
    (by decide +kernel) (by decide) (by decide) (by decide) (by decide)
  exact near (-1.0) 2.0 rfl rfl (by decide)

/-- Densities that leap through zero along x, too far for their difference. -/
def steep : Density :=
  ⟨⟨2, .none⟩, #v[-3.0e38, 3.0e38, 3.0e38, -3.0e38, 3.0e38, 3.0e38, -3.0e38, 3.0e38, 3.0e38,
    -3.0e38, 3.0e38, 3.0e38, -3.0e38, 3.0e38, 3.0e38, -3.0e38, 3.0e38, 3.0e38,
    -3.0e38, 3.0e38, 3.0e38, -3.0e38, 3.0e38, 3.0e38, -3.0e38, 3.0e38, 3.0e38]⟩

/-- Cells that run an edge in opposite ways need not compute the same point,
bit for bit. Where the densities are too far apart for their difference, the
points are a whole cell apart. -/
theorem crossingPoint_apart :
    let size := cellSize 2.0 2
    let e := Edge.inCell ⟨0, 0, 0⟩ 2
    e = Edge.inCell ⟨0, 0, 1⟩ 0 ∧
      (slanted.lattice.checkStorage = .ok () ∧
        slanted.values.all Float32.isFinite = true ∧
        slanted.below 0.0 e.base ≠ slanted.below 0.0 (e.base + e.axis.unit) ∧
        slanted.crossingPoint 0.0 size ⟨0, 0, 0⟩ 2 ≠
          slanted.crossingPoint 0.0 size ⟨0, 0, 1⟩ 0) ∧
      steep.lattice.checkStorage = .ok () ∧
      steep.values.all Float32.isFinite = true ∧
      steep.below 0.0 e.base ≠ steep.below 0.0 (e.base + e.axis.unit) ∧
      steep.crossingPoint 0.0 size ⟨0, 0, 0⟩ 2 = ⟨1.0, 0.0, 1.0⟩ ∧
      steep.crossingPoint 0.0 size ⟨0, 0, 1⟩ 0 = ⟨0.0, 0.0, 1.0⟩ := by
  decide +kernel

end Mesh

end FieldMesh
