import FieldMesh.Proofs.Mesh.MarchingCubes
import FieldMesh.Proofs.Mesh.Smoothing

/-!
# Empty surfaces

A surface has no triangle exactly if there is nothing to separate. What one
cell or one edge tells about its own points only is carried from point to
point through the region.

* `Alike`: points on the same side of the level;
* `below_eq_of_steps`: if no step in a box leads to the other side, the whole
  box is on one side;
* `cellTriangles_eq_nil_iff`: the cells without triangles;
* `surfaceTriangles_eq_nil_iff`, `crossedEdges_eq_nil_iff`: the regions without
  triangles, and without quads;
* **main result**: `isEmpty_iff_alike`.
-/

namespace FieldMesh.Mesh

/-- Whether all points of a kind are on the same side of the level. -/
def Alike (below : Point → Bool) (kind : Point → Prop) : Prop :=
  ∀ p q, kind p → kind q → below p = below q

/-- Points of a kind are alike if each is on the side of one point. -/
theorem alike_of_eq {below : Point → Bool} {kind : Point → Prop} (center : Point)
    (same : ∀ p, kind p → below p = below center) : Alike below kind :=
  fun p q first second => (same p first).trans (same q second).symm

/-! ## From point to point -/

/-- What does not change from one number to the next is the same as at the
last one. -/
theorem eq_of_steps {f : Int → Bool} {low high : Int}
    (steps : ∀ i, low ≤ i → i < high → f i = f (i + 1)) {i : Int}
    (above : low ≤ i) (under : i ≤ high) : f i = f high := by
  obtain ⟨n, rfl⟩ := Int.le.dest under
  clear under
  induction n generalizing i with
  | zero => rw [Int.natCast_zero, Int.add_zero]
  | succ n ih =>
    have next : i + (n + 1 : Nat) = i + 1 + n := by omega
    rw [next] at steps ⊢
    exact (steps i above (by omega)).trans (ih (by omega) steps)

/-- Whether all coordinates of a point are between two numbers. -/
def Point.InBox (low high : Int) (p : Point) : Prop :=
  (low ≤ p.x ∧ p.x ≤ high) ∧ (low ≤ p.y ∧ p.y ≤ high) ∧
    (low ≤ p.z ∧ p.z ≤ high)

theorem Lattice.contains_iff_inBox {cells : Nat} {p : Point} :
    Lattice.Contains ⟨cells, .none⟩ p ↔ p.InBox 0 cells := by
  simp [Contains, Within, border, Padding.border, Point.InBox]

/-- If no step inside a box leads to the other side of the level, all its
points are on the side of the uppermost one. -/
theorem below_eq_of_steps {below : Point → Bool} {low high : Int}
    (steps : ∀ (p : Point) (axis : Axis), p.InBox low high →
      p.along axis < high → below p = below (p + axis.unit))
    {p : Point} (inside : p.InBox low high) :
    below p = below ⟨high, high, high⟩ := by
  obtain ⟨⟨x, x'⟩, ⟨y, y'⟩, ⟨z, z'⟩⟩ := inside
  have stepX (i : Int) (above : low ≤ i) (under : i < high) :
      below ⟨i, p.y, p.z⟩ = below ⟨i + 1, p.y, p.z⟩ := by
    refine (steps ⟨i, p.y, p.z⟩ .x ?_ under).trans (congrArg below ?_)
    · exact ⟨⟨above, Int.le_of_lt under⟩, ⟨y, y'⟩, ⟨z, z'⟩⟩
    · ext <;> simp [Axis.unit]
  have stepY (i : Int) (above : low ≤ i) (under : i < high) :
      below ⟨high, i, p.z⟩ = below ⟨high, i + 1, p.z⟩ := by
    refine (steps ⟨high, i, p.z⟩ .y ?_ under).trans (congrArg below ?_)
    · exact ⟨⟨x.trans x', Int.le_refl high⟩, ⟨above, Int.le_of_lt under⟩,
        ⟨z, z'⟩⟩
    · ext <;> simp [Axis.unit]
  have stepZ (i : Int) (above : low ≤ i) (under : i < high) :
      below ⟨high, high, i⟩ = below ⟨high, high, i + 1⟩ := by
    refine (steps ⟨high, high, i⟩ .z ?_ under).trans (congrArg below ?_)
    · exact ⟨⟨x.trans x', Int.le_refl high⟩, ⟨x.trans x', Int.le_refl high⟩,
        ⟨above, Int.le_of_lt under⟩⟩
    · ext <;> simp [Axis.unit]
  calc below p
      = below ⟨high, p.y, p.z⟩ :=
        eq_of_steps (f := fun i => below ⟨i, p.y, p.z⟩) stepX x x'
    _ = below ⟨high, high, p.z⟩ :=
        eq_of_steps (f := fun i => below ⟨high, i, p.z⟩) stepY y y'
    _ = below ⟨high, high, high⟩ :=
        eq_of_steps (f := fun i => below ⟨high, high, i⟩) stepZ z z'

/-! ## Cells -/

/-- The coordinates of corners of a cell. -/
def steps : List Int := [0, 1]

theorem mem_steps {i : Int} : i ∈ steps ↔ 0 ≤ i ∧ i ≤ 1 := by
  simp only [steps, List.mem_cons, List.not_mem_nil, or_false]
  omega

/-- Every way of at most one step along each axis leads to a corner. -/
theorem exists_corner {x y z : Int} (hx : 0 ≤ x ∧ x ≤ 1) (hy : 0 ≤ y ∧ y ≤ 1)
    (hz : 0 ≤ z ∧ z ≤ 1) : ∃ c : Corner, c.offset = ⟨x, y, z⟩ := by
  have tried : ∀ x ∈ steps, ∀ y ∈ steps, ∀ z ∈ steps,
      ∃ c : Corner, c.offset = (⟨x, y, z⟩ : Point) := by
    decide
  exact tried x (mem_steps.mpr hx) y (mem_steps.mpr hy) z (mem_steps.mpr hz)

/-- Only the cases with all corners on one side have no triangle. -/
theorem uniform_of_triangles_eq_nil {case : Nat} (small : case < 256)
    (empty : triangles case = []) : case = 0 ∨ case = 255 := by
  have tried : ∀ case < 256, triangles case = [] → case = 0 ∨ case = 255 := by
    decide +kernel
  exact tried case small empty

/-- A cell has no triangle exactly if its corners are alike. -/
theorem cellTriangles_eq_nil_iff {below : Point → Bool} {cell : Point} :
    cellTriangles below cell = [] ↔
      ∀ c c' : Corner, below (cell + c.offset) = below (cell + c'.offset) := by
  rw [cellTriangles, List.map_eq_nil_iff]
  constructor
  · intro empty c c'
    rw [← testBit_caseAt below cell c, ← testBit_caseAt below cell c']
    rcases uniform_of_triangles_eq_nil (caseAt_lt below cell) empty with zero | full
    · rw [zero, Nat.zero_testBit, Nat.zero_testBit]
    · have set : ∀ c : Corner, Nat.testBit 255 c = true := by decide
      rw [full, set, set]
  · intro same
    -- all eight bits of the case are those of the first corner
    have case_eq : caseAt below cell =
        binary (List.replicate 8 (below (cell + Corner.offset 0))) := by
      refine congrArg binary (List.map_eq_replicate_iff.mpr ?_)
      exact fun c _ => same c 0
    rw [case_eq]
    cases below (cell + Corner.offset 0) <;> rfl

/-- The ends of an edge in the region are corners of a cell. -/
theorem exists_cell {cells : Nat} (pos : 1 ≤ cells) {p : Point} {axis : Axis}
    (inside : p.InBox 0 cells) (under : p.along axis < cells) :
    ∃ cell : Point, cell.IsCell cells ∧ ∃ c c' : Corner,
      p = cell + c.offset ∧ p + axis.unit = cell + c'.offset := by
  -- the cell above the point, or the last one before it
  let cell : Point :=
    ⟨min p.x (cells - 1), min p.y (cells - 1), min p.z (cells - 1)⟩
  have isCell : cell.IsCell cells := by
    simp only [Point.InBox] at inside
    simp only [Point.IsCell, cell]
    omega
  have corner {q : Point} (x : cell.x ≤ q.x ∧ q.x ≤ cell.x + 1)
      (y : cell.y ≤ q.y ∧ q.y ≤ cell.y + 1)
      (z : cell.z ≤ q.z ∧ q.z ≤ cell.z + 1) :
      ∃ c : Corner, q = cell + c.offset := by
    obtain ⟨c, offset⟩ := exists_corner (x := q.x - cell.x) (y := q.y - cell.y)
      (z := q.z - cell.z) (by omega) (by omega) (by omega)
    refine ⟨c, ?_⟩
    rw [offset]
    ext <;> simp only [Point.add_x, Point.add_y, Point.add_z] <;> omega
  have first : ∃ c : Corner, p = cell + c.offset := by
    simp only [Point.InBox] at inside
    refine corner ?_ ?_ ?_ <;> simp only [cell] <;> omega
  have second : ∃ c : Corner, p + axis.unit = cell + c.offset := by
    simp only [Point.InBox] at inside
    cases axis <;>
    · simp only [Point.along] at under
      refine corner ?_ ?_ ?_ <;>
        simp only [cell, Axis.unit, Point.add_x, Point.add_y, Point.add_z] <;>
        omega
  obtain ⟨c, atFirst⟩ := first
  obtain ⟨c', atSecond⟩ := second
  exact ⟨cell, isCell, c, c', atFirst, atSecond⟩

/-- Marching cubes has nothing to write exactly if all points of the region are
alike. -/
theorem surfaceTriangles_eq_nil_iff {cells : Nat} (pos : 1 ≤ cells)
    {below : Point → Bool} :
    surfaceTriangles cells below = [] ↔
      Alike below (Lattice.Contains ⟨cells, .none⟩) := by
  rw [surfaceTriangles, List.flatMap_eq_nil_iff]
  constructor
  · intro empty
    refine alike_of_eq ⟨cells, cells, cells⟩ fun p stored => ?_
    refine below_eq_of_steps (fun q axis inside under => ?_)
      (Lattice.contains_iff_inBox.mp stored)
    obtain ⟨cell, isCell, c, c', atFirst, atSecond⟩ :=
      exists_cell pos inside under
    rw [atSecond, atFirst]
    exact cellTriangles_eq_nil_iff.mp (empty cell (mem_cellPoints.mpr isCell)) c c'
  · intro alike cell member
    have isCell := mem_cellPoints.mp member
    refine cellTriangles_eq_nil_iff.mpr fun c c' => alike _ _ ?_ ?_
    · exact Lattice.contains_corner (l := ⟨cells, .none⟩) isCell c
    · exact Lattice.contains_corner (l := ⟨cells, .none⟩) isCell c'

/-! ## Edges with quads -/

/-- Whether a point of the region has at most one coordinate zero. -/
def Point.OffLowerEdges (cells : Nat) (p : Point) : Prop :=
  Lattice.Contains ⟨cells, .none⟩ p ∧ [p.x, p.y, p.z].count 0 ≤ 1

theorem Point.offLowerEdges_iff {cells : Nat} {p : Point} :
    p.OffLowerEdges cells ↔ p.InBox 0 cells ∧ (p.x = 0 → p.y ≠ 0) ∧
      (p.x = 0 → p.z ≠ 0) ∧ (p.y = 0 → p.z ≠ 0) := by
  rw [OffLowerEdges, Lattice.contains_iff_inBox]
  refine and_congr_right fun _ => ?_
  by_cases x : p.x = 0 <;> by_cases y : p.y = 0 <;> by_cases z : p.z = 0 <;>
    simp [x, y, z]

/-- The ends of edges that can have quads have at most one coordinate zero. -/
theorem offLowerEdges_of_inside {cells : Nat} {e : LatticeEdge}
    (inside : e.Inside cells) :
    e.base.OffLowerEdges cells ∧
      (e.base + e.axis.unit).OffLowerEdges cells := by
  obtain ⟨⟨x, y, z⟩, axis⟩ := e
  simp only [Point.offLowerEdges_iff, Point.InBox]
  cases axis <;>
  · simp only [LatticeEdge.Inside, Axis.across, Point.along] at inside
    simp only [Axis.unit, Point.add_x, Point.add_y, Point.add_z]
    omega

/-- A point with at most one coordinate zero is one step away from the points
with none, along an edge that can have a quad. -/
theorem inBox_or_inside {cells : Nat} (pos : 1 ≤ cells) {p : Point}
    (off : p.OffLowerEdges cells) :
    p.InBox 1 cells ∨ ∃ axis : Axis, LatticeEdge.Inside cells ⟨p, axis⟩ ∧
      (p + axis.unit).InBox 1 cells := by
  obtain ⟨inside, xy, xz, yz⟩ := Point.offLowerEdges_iff.mp off
  simp only [Point.InBox] at inside
  by_cases zero : ∃ axis : Axis, p.along axis = 0
  · obtain ⟨axis, zero⟩ := zero
    refine .inr ⟨axis, ?_⟩
    cases axis <;>
    · simp only [Point.along] at zero
      simp only [LatticeEdge.Inside, Axis.across, Axis.unit, Point.along,
        Point.InBox, Point.add_x, Point.add_y, Point.add_z]
      omega
  · have x : p.x ≠ 0 := fun zeroX => zero ⟨.x, zeroX⟩
    have y : p.y ≠ 0 := fun zeroY => zero ⟨.y, zeroY⟩
    have z : p.z ≠ 0 := fun zeroZ => zero ⟨.z, zeroZ⟩
    refine .inl ?_
    simp only [Point.InBox]
    omega

/-- Dual contouring has nothing to write exactly if all points with at most one
coordinate zero are alike. -/
theorem crossedEdges_eq_nil_iff {cells : Nat} (pos : 1 ≤ cells)
    {below : Point → Bool} :
    crossedEdges cells below = [] ↔ Alike below (Point.OffLowerEdges cells) := by
  have uncrossed : crossedEdges cells below = [] ↔
      ∀ e : LatticeEdge, e.Inside cells →
        below e.base = below (e.base + e.axis.unit) := by
    simp [List.eq_nil_iff_forall_not_mem, mem_crossedEdges, LatticeEdge.crossed]
  rw [uncrossed]
  constructor
  · intro steps
    have inner {p : Point} (inside : p.InBox 1 cells) :
        below p = below ⟨cells, cells, cells⟩ := by
      refine below_eq_of_steps (fun q axis inside under => ?_) inside
      refine steps ⟨q, axis⟩ ?_
      simp only [Point.InBox] at inside
      cases axis <;>
      · simp only [Point.along] at under
        simp only [LatticeEdge.Inside, Axis.across, Point.along]
        omega
    refine alike_of_eq ⟨cells, cells, cells⟩ fun p off => ?_
    rcases inBox_or_inside pos off with inside | ⟨axis, step, inside⟩
    · exact inner inside
    · exact (steps ⟨p, axis⟩ step).trans (inner inside)
  · intro alike e inside
    obtain ⟨first, second⟩ := offLowerEdges_of_inside inside
    exact alike _ _ first second

/-! ## What is written -/

theorem Buffers.isEmpty_iff {b : Buffers} {n : Nat}
    (counted : b.indexCount = 3 * n) : b.isEmpty = true ↔ n = 0 := by
  rw [isEmpty, counted, beq_iff_eq]
  omega

/-- Without crossed edges, dual contouring writes nothing, and nothing stops
it. -/
theorem dualContouring_of_crossedEdges_eq_nil {d : Density} (program : Program)
    (r : Request) {b : Buffers} (gradient : d.lattice.padding = .gradient)
    (room : b.capacity.holds
      (Algorithm.dualContouring.capacity d.lattice.cells) = true)
    (uncrossed : crossedEdges d.lattice.cells (d.below r.level) = []) :
    dualContouring d program r b = .ok (.blank b.capacity) := by
  let field := d.field program r
  let start := Surface.blank d.lattice.cells b.capacity
  have walked : walk d.lattice.cells (Surface.addPoint field d r.level) start =
      .ok start := by
    rw [walk_eq_foldlM (fun cell isCell s => addPoint_eq isCell r.level s)]
    show (crossedEdges _ _).foldlM _ _ = _
    rw [uncrossed]
    rfl
  have smoothed : start.smooth field d r.level = .ok start := by
    -- there is no vertex that smoothing could move
    have holds := Surface.holds_blank field d.lattice.cells b.capacity field.middle
    rw [holds.smooth_eq (by rw [← gradient]) fun p member =>
      absurd member List.not_mem_nil]
    simp only [List.not_mem_nil, decide_false, List.filter_false]
    rfl
  have run := dualContouring_eq program r gradient room r.smooth
  simp only [start] at walked smoothed
  rw [show { r with smooth := r.smooth } = r from rfl] at run
  rw [run, walked]
  cases r.smooth
  · rfl
  · show ((Surface.smooth _ _ _ _).mapError _).map _ = _
    rw [smoothed]
    rfl

/-- What is not a number is not below the level. -/
theorem not_lt_of_isNaN {v level : Float32} (nan : v.isNaN = true) :
    ¬ v < level := by
  intro less
  have unpacked : v.toModel.unpack = .notANumber := by
    have nan : v.toModel.unpack.isNaN = true := nan
    cases value : v.toModel.unpack <;> rw [value] at nan <;>
      first | rfl | cases nan
  have compared : v.toModel.unpack.lt level.toModel.unpack = true :=
    of_decide_eq_true less
  rw [unpacked] at compared
  cases compared

/-- The points of a region can be read, and each of them is below the level or
not. Those whose density is not a number are not. -/
theorem Density.sides {d : Density} {p : Point}
    (stored : Lattice.Contains ⟨d.lattice.cells, .none⟩ p) (level : Float32) :
    ∃ v, d.value p = .ok v ∧ d.below level p = decide (v < level) ∧
      (v.isNaN = true → d.below level p = false) := by
  have inside : d.lattice.Contains p := by
    simp only [Lattice.contains_iff_inBox, Point.InBox] at stored
    simp only [Lattice.Contains, Lattice.Within]
    omega
  obtain ⟨v, read, side⟩ := d.value_eq inside level
  refine ⟨v, read, side, fun nan => ?_⟩
  rw [side, decide_eq_false_iff_not]
  exact not_lt_of_isNaN nan

/-- **A mesh is empty exactly when there is nothing to separate.** Whatever the
densities are, in a region of at least one cell along every axis, marching
cubes writes no triangle exactly if all points of the region are on the same
side of the level, and dual contouring exactly if this holds of those with at
most one coordinate zero. -/
theorem isEmpty_iff_alike {d : Density} (program : Program) (r : Request)
    {b : Buffers} (pos : 1 ≤ d.lattice.cells) :
    let cells := d.lattice.cells
    let below := d.below r.level
    (∀ p, Lattice.Contains ⟨cells, .none⟩ p →
      ∃ v, d.value p = .ok v ∧ below p = decide (v < r.level) ∧
        (v.isNaN = true → below p = false)) ∧
    (b.capacity.holds (Algorithm.marchingCubes.capacity cells) = true →
      ((∃ out, marchingCubes d r.level r.scale b = .ok out ∧
          out.isEmpty = true) ↔
        Alike below (Lattice.Contains ⟨cells, .none⟩))) ∧
    (d.lattice.padding = .gradient →
      b.capacity.holds (Algorithm.dualContouring.capacity cells) = true →
      ((∃ out, dualContouring d program r b = .ok out ∧ out.isEmpty = true) ↔
        Alike below (Point.OffLowerEdges cells))) := by
  intro cells below
  refine ⟨fun p stored => d.sides stored r.level, fun room => ?_,
    fun gradient room => ?_⟩
  · obtain ⟨out, made, grows⟩ := marchingCubes_eq room r.level r.scale
    have counted : out.indexCount =
        3 * (surfaceTriangles cells below).length := by
      rw [grows.indexCount, List.length_map, List.length_range]
      exact Nat.zero_add _
    rw [← surfaceTriangles_eq_nil_iff pos, ← List.length_eq_zero_iff,
      ← Buffers.isEmpty_iff counted]
    constructor
    · rintro ⟨out', made', empty⟩
      cases made.symm.trans made'
      exact empty
    · exact fun empty => ⟨out, made, empty⟩
  · rw [← crossedEdges_eq_nil_iff pos]
    constructor
    · rintro ⟨out, made, empty⟩
      obtain ⟨s, rfl, holds⟩ := exists_holds_of_ok program r gradient made
      have zero := (Buffers.isEmpty_iff holds.indexCount).mp empty
      -- every crossed edge has two triangles
      refine List.eq_nil_iff_forall_not_mem.mpr fun e crossed => ?_
      have missing : edgeTriangles below e = [] :=
        List.flatMap_eq_nil_iff.mp (List.length_eq_zero_iff.mp zero) e crossed
      have two := length_edgeTriangles below e
      rw [missing] at two
      cases two
    · intro uncrossed
      exact ⟨_, dualContouring_of_crossedEdges_eq_nil program r gradient room uncrossed,
        rfl⟩

/-- A cell with a border. Of its points, one with two coordinates zero is below
zero, and the density at the uppermost one is not a number. -/
def rimPoint : Density :=
  let lattice : Lattice := ⟨1, .gradient⟩
  let rim : Fin lattice.volume := ⟨22, by decide⟩
  let top : Fin lattice.volume := ⟨42, by decide⟩
  ⟨lattice, ((Vector.replicate _ 1.0).set rim (-1.0)).set top (0.0 / 0.0)⟩

/-- Only marching cubes looks at that point. -/
theorem isEmpty_iff_alike_rimPoint :
    (∃ out, dualContouring rimPoint (.constant .zero) {}
        (.blank (Algorithm.dualContouring.capacity 1)) = .ok out ∧
      out.isEmpty = true) ∧
    ¬ ∃ out, marchingCubes rimPoint 0.0 1.0
        (.blank (Algorithm.marchingCubes.capacity 1)) = .ok out ∧
      out.isEmpty = true := by
  have room (algorithm : Algorithm) :
      (Buffers.blank (algorithm.capacity 1)).capacity.holds
        (algorithm.capacity rimPoint.lattice.cells) = true := by
    rw [Buffers.capacity_blank]
    cases algorithm <;> decide
  have one : 1 ≤ rimPoint.lattice.cells := Nat.le_refl 1
  constructor
  · obtain ⟨-, -, dual⟩ := isEmpty_iff_alike (d := rimPoint)
      (b := .blank (Algorithm.dualContouring.capacity 1)) (.constant .zero) {} one
    refine (dual rfl (room .dualContouring)).mpr fun p q first second => ?_
    have tried : ∀ x ∈ steps, ∀ y ∈ steps, ∀ z ∈ steps,
        [x, y, z].count 0 ≤ 1 → rimPoint.below 0.0 ⟨x, y, z⟩ = false := by
      decide +kernel
    have side {p : Point} (off : p.OffLowerEdges rimPoint.lattice.cells) :
        rimPoint.below 0.0 p = false := by
      obtain ⟨stored, few⟩ := off
      obtain ⟨x, y, z⟩ := Lattice.contains_iff_inBox.mp stored
      exact tried p.x (mem_steps.mpr x) p.y (mem_steps.mpr y) p.z
        (mem_steps.mpr z) few
    exact (side first).trans (side second).symm
  · obtain ⟨-, marching, -⟩ := isEmpty_iff_alike (d := rimPoint)
      (b := .blank (Algorithm.marchingCubes.capacity 1)) (.constant .zero) {} one
    rw [marching (room .marchingCubes)]
    intro alike
    have same := alike ⟨1, 0, 0⟩ ⟨0, 0, 0⟩ (by decide) (by decide)
    revert same
    decide +kernel

end FieldMesh.Mesh
