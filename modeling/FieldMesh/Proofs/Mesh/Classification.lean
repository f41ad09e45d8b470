import Mathlib.Data.List.Nodup
import Mathlib.Data.List.FinRange
import FieldMesh.Mesh.Density
import FieldMesh.Proofs.Mesh.Geometry

/-!
# Points below the level

Surfaces depend on densities only through where these are below the level.
Numbers that are no numbers are not below it.

* `Density.below`: whether the density at a point is below the level;
* `caseAt`: the case of a cell, from which points are below;
* `Density.corners_of_contains`, `Density.corners_eq`: the corners of a cell
  that are stored can be read, and their case is that one;
* `Density.corners_read`: what is read for them;
* `mem_cellPoints`, `nodup_cellPoints`: the cells of a region, each once;
* `walk_eq_foldlM`: a walk, by what it does at each of them.
-/

namespace FieldMesh.Mesh

/-! ## Cells of a region -/

/-- Whether a cell belongs to a region, by its least corner. -/
def Point.IsCell (cells : Nat) (p : Point) : Prop :=
  (0 ≤ p.x ∧ p.x < cells) ∧ (0 ≤ p.y ∧ p.y < cells) ∧ (0 ≤ p.z ∧ p.z < cells)

instance (cells : Nat) (p : Point) : Decidable (p.IsCell cells) :=
  inferInstanceAs (Decidable (_ ∧ _))

theorem mem_cellPoints {cells : Nat} {p : Point} :
    p ∈ cellPoints cells ↔ p.IsCell cells := by
  simp only [cellPoints, List.mem_flatMap, List.mem_map, List.mem_range]
  constructor
  · rintro ⟨y, hy, z, hz, x, hx, rfl⟩
    refine ⟨⟨?_, ?_⟩, ⟨?_, ?_⟩, ⟨?_, ?_⟩⟩ <;> simp only <;> omega
  · rintro ⟨⟨hx, hx'⟩, ⟨hy, hy'⟩, ⟨hz, hz'⟩⟩
    refine ⟨p.y.toNat, by omega, p.z.toNat, by omega, p.x.toNat, by omega, ?_⟩
    ext <;> simp only <;> omega

theorem nodup_cellPoints (cells : Nat) : (cellPoints cells).Nodup := by
  have row (y z : Nat) : ((List.range cells).map fun x : Nat =>
      (⟨x, y, z⟩ : Point)).Nodup := by
    refine List.nodup_range.map fun x x' same => ?_
    exact Int.ofNat_inj.mp (congrArg Point.x same)
  refine List.nodup_flatMap.mpr ⟨fun y _ => List.nodup_flatMap.mpr
    ⟨fun z _ => row y z, ?_⟩, ?_⟩
  · refine List.pairwise_lt_range.imp fun {z z'} apart p first second => ?_
    obtain ⟨x, -, rfl⟩ := List.mem_map.mp first
    obtain ⟨x', -, same⟩ := List.mem_map.mp second
    exact apart.ne (Int.ofNat_inj.mp (congrArg Point.z same)).symm
  · refine List.pairwise_lt_range.imp fun {y y'} apart p first second => ?_
    obtain ⟨z, -, inner⟩ := List.mem_flatMap.mp first
    obtain ⟨x, -, rfl⟩ := List.mem_map.mp inner
    obtain ⟨z', -, inner'⟩ := List.mem_flatMap.mp second
    obtain ⟨x', -, same⟩ := List.mem_map.mp inner'
    exact apart.ne (Int.ofNat_inj.mp (congrArg Point.y same)).symm

theorem length_cellPoints (cells : Nat) :
    (cellPoints cells).length = cells * cells * cells := by
  simp [cellPoints, List.length_flatMap, Nat.mul_assoc]

/-- A walk that takes some steps at every cell takes them all in turn. -/
theorem walk_eq_foldlM {m : Type → Type} [Monad m] [LawfulMonad m] {α β : Type}
    {cells : Nat} {visit : α → Point → m α} {steps : Point → List β}
    {step : α → β → m α}
    (each : ∀ cell, cell.IsCell cells → ∀ state,
      visit state cell = (steps cell).foldlM step state) (start : α) :
    walk cells visit start =
      ((cellPoints cells).flatMap steps).foldlM step start := by
  have visited : ∀ points : List Point, (∀ p ∈ points, p.IsCell cells) →
      ∀ state, points.foldlM visit state =
        (points.flatMap steps).foldlM step state := by
    intro points inside
    induction points with
    | nil => exact fun state => rfl
    | cons cell rest ih =>
      intro state
      rw [List.foldlM_cons, each cell (inside cell List.mem_cons_self),
        List.flatMap_cons, List.foldlM_append]
      exact congrArg _ (funext (ih fun p member =>
        inside p (List.mem_cons_of_mem cell member)))
  rw [walk_eq]
  exact visited _ (fun p member => mem_cellPoints.mp member) start

/-- Corners are at most one step away along every axis. -/
theorem Corner.offset_bounds (c : Corner) :
    (0 ≤ c.offset.x ∧ c.offset.x ≤ 1) ∧ (0 ≤ c.offset.y ∧ c.offset.y ≤ 1) ∧
      (0 ≤ c.offset.z ∧ c.offset.z ≤ 1) := by
  revert c
  decide

/-- The corners of the cells of a region are stored. -/
theorem Lattice.contains_corner {l : Lattice} {cell : Point}
    (isCell : cell.IsCell l.cells) (c : Corner) :
    l.Contains (cell + c.offset) := by
  obtain ⟨⟨hx, hx'⟩, ⟨hy, hy'⟩, ⟨hz, hz'⟩⟩ := isCell
  obtain ⟨⟨ux, ux'⟩, ⟨uy, uy'⟩, ⟨uz, uz'⟩⟩ := c.offset_bounds
  refine ⟨⟨?_, ?_⟩, ⟨?_, ?_⟩, ⟨?_, ?_⟩⟩ <;>
    simp only [Point.add_x, Point.add_y, Point.add_z] <;> omega

/-! ## Densities -/

/-- Whether the density at a point is below the level. -/
def Density.below (d : Density) (level : Float32) (p : Point) : Bool :=
  match d.value p with
  | .ok v => decide (v < level)
  | .error _ => false

theorem Density.value_eq {d : Density} {p : Point}
    (stored : d.lattice.Contains p) (level : Float32) :
    ∃ v, d.value p = .ok v ∧ d.below level p = decide (v < level) := by
  unfold below value
  rw [dif_pos stored]
  exact ⟨_, rfl, rfl⟩

/-! ## Cases -/

/-- The case of a cell, from which points are below the level. -/
def caseAt (below : Point → Bool) (cell : Point) : Nat :=
  binary ((List.finRange 8).map fun c : Corner => below (cell + c.offset))

theorem caseAt_lt (below : Point → Bool) (cell : Point) :
    caseAt below cell < 256 := by
  simpa [caseAt] using binary_lt
    ((List.finRange 8).map fun c : Corner => below (cell + c.offset))

theorem testBit_caseAt (below : Point → Bool) (cell : Point) (c : Corner) :
    (caseAt below cell).testBit c = below (cell + c.offset) := by
  simp [caseAt, testBit_binary, List.getD_eq_getElem?_getD]

/-- Reading a vector whose places can all be read. -/
theorem ofFnM_ok {ε α : Type} {n : Nat} {f : Fin n → Except ε α} {g : Fin n → α}
    (each : ∀ i, f i = .ok (g i)) : Vector.ofFnM f = .ok (Vector.ofFn g) := by
  induction n with
  | zero =>
    rw [Vector.ofFnM_zero]
    exact congrArg Except.ok (Vector.ext fun i inside => absurd inside (by omega))
  | succ n ih =>
    rw [Vector.ofFnM_succ, ih fun i => each i.castSucc, each, Vector.ofFn_succ]
    rfl

/-- The corners of a cell can be read if they are stored. -/
theorem Density.corners_of_contains {d : Density} {cell : Point}
    (stored : ∀ c : Corner, d.lattice.Contains (cell + c.offset))
    (level : Float32) :
    ∃ corners, d.corners cell = .ok corners ∧
      caseOf corners level = caseAt (d.below level) cell := by
  choose value read below using fun c : Corner => d.value_eq (stored c) level
  refine ⟨Vector.ofFn value, ofFnM_ok read, ?_⟩
  have places : (Vector.ofFn value).toList = (List.finRange 8).map value := by
    rw [Vector.toList_ofFn, List.ofFn_eq_map]
  rw [caseOf, caseAt, places, List.map_map]
  exact congrArg binary (List.map_congr_left fun c _ => (below c).symm)

/-- The corners of a cell are the densities at its corner points. -/
theorem Density.corners_read {d : Density} {cell : Point}
    (isCell : cell.IsCell d.lattice.cells) :
    ∃ corners, d.corners cell = .ok corners ∧
      ∀ c : Corner, d.value (cell + c.offset) = .ok (corners.get c) := by
  have each (c : Corner) : ∃ v, d.value (cell + c.offset) = .ok v := by
    obtain ⟨v, read, -⟩ := d.value_eq (Lattice.contains_corner isCell c) 0.0
    exact ⟨v, read⟩
  choose value read using each
  refine ⟨Vector.ofFn value, ofFnM_ok read, fun c => ?_⟩
  rw [read]
  exact congrArg Except.ok (Vector.getElem_ofFn c.isLt).symm

/-- The corners of a cell of the region can be read. -/
theorem Density.corners_eq {d : Density} {cell : Point}
    (isCell : cell.IsCell d.lattice.cells) (level : Float32) :
    ∃ corners, d.corners cell = .ok corners ∧
      caseOf corners level = caseAt (d.below level) cell :=
  corners_of_contains (Lattice.contains_corner isCell) level

end FieldMesh.Mesh
