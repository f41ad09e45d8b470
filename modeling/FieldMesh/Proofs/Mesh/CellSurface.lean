import Mathlib.Algebra.BigOperators.Group.Finset.Basic
import Mathlib.Tactic.Ring
import FieldMesh.Proofs.Mesh.CellCases
import FieldMesh.Proofs.Mesh.Classification

/-!
# The surface through the cells of a region

The triangles of all cells together, with the edges of the lattice for
vertices. Seen from a face, its two cells have the same sides in it, once in
each direction, so that the surface is closed except on the outside of the
region.

* `cellSides`, `surfaceSides`: the sides of triangles, of a cell and of all;
* `faceSides`: the sides in a face as the cell above it has them;
* `count_cellSides_above`, `count_cellSides_below`: its two cells have these,
  the cell below turned round;
* `count_surfaceSides`: between two edges there are as many sides one way as
  the other way, unless both are in a face on the outside;
* `leftOf_of_cellSides`: where a cell has more sides one way, the ends below
  the level are to the left.
-/

namespace FieldMesh.Mesh

/-! ## Sides in the lattice -/

/-- A side further on. -/
def shiftSide (p : Point) (side : LatticeEdge × LatticeEdge) :
    LatticeEdge × LatticeEdge :=
  (side.1.shift p, side.2.shift p)

theorem shiftSide_injective (p : Point) : Function.Injective (shiftSide p) := by
  rintro ⟨a, b⟩ ⟨c, d⟩ same
  obtain ⟨first, second⟩ := Prod.mk.inj same
  have firsts : a = c := LatticeEdge.shift_injective p first
  have seconds : b = d := LatticeEdge.shift_injective p second
  rw [firsts, seconds]

/-- The triangles of a cell as they are put out, each with the cell. -/
def cellTriangles (below : Point → Bool) (cell : Point) :
    List (Point × EdgeTriangle) :=
  (triangles (caseAt below cell)).map fun t => (cell, emitted t)

/-- The triangles of all cells. -/
def surfaceTriangles (cells : Nat) (below : Point → Bool) :
    List (Point × EdgeTriangle) :=
  (cellPoints cells).flatMap (cellTriangles below)

/-- The sides of a triangle of a cell. -/
def placedSides : Point × EdgeTriangle → List (LatticeEdge × LatticeEdge)
  | (cell, t) => (triangleSides t).map fun (a, b) => (a.inCell cell, b.inCell cell)

/-- The sides of the triangles of a cell. -/
def cellSides (below : Point → Bool) (cell : Point) :
    List (LatticeEdge × LatticeEdge) :=
  (cellTriangles below cell).flatMap placedSides

/-- The sides of the triangles of all cells. -/
def surfaceSides (cells : Nat) (below : Point → Bool) :
    List (LatticeEdge × LatticeEdge) :=
  (surfaceTriangles cells below).flatMap placedSides

theorem surfaceSides_eq (cells : Nat) (below : Point → Bool) :
    surfaceSides cells below = (cellPoints cells).flatMap (cellSides below) := by
  rw [surfaceSides, surfaceTriangles, List.flatMap_assoc]
  rfl

theorem cellSides_eq (below : Point → Bool) (cell : Point) :
    cellSides below cell =
      (caseSides (caseAt below cell)).map (shiftSide cell) := by
  rw [cellSides, cellTriangles, caseSides, edgeSides, List.map_map,
    List.map_flatMap, List.flatMap_map]
  exact List.flatMap_congr fun t _ => rfl

theorem count_cellSides (below : Point → Bool) (cell : Point)
    (e f : LatticeEdge) :
    (cellSides below cell).count (e.shift cell, f.shift cell) =
      (caseSides (caseAt below cell)).count (e, f) := by
  rw [cellSides_eq]
  exact List.count_map_of_injective _ _ (shiftSide_injective cell) (e, f)

/-- Sides of a cell go between different edges of it. -/
theorem inCell_of_cellSides {below : Point → Bool} {cell : Point}
    {e f : LatticeEdge} (member : (e, f) ∈ cellSides below cell) :
    ∃ a b : Edge, a ≠ b ∧ a.inCell cell = e ∧ b.inCell cell = f := by
  rw [cellSides_eq, caseSides, List.map_map] at member
  obtain ⟨⟨a, b⟩, side, same⟩ := List.mem_map.mp member
  obtain ⟨first, second⟩ := Prod.mk.inj same
  exact ⟨a, b, ne_of_edgeSides (caseAt_lt below cell) side, first, second⟩

/-- A cell has no sides between edges that are not both its own. -/
theorem count_cellSides_eq_zero {below : Point → Bool} {cell : Point}
    {e f : LatticeEdge}
    (foreign : ∀ a b : Edge, a ≠ b → a.inCell cell = e → b.inCell cell ≠ f) :
    (cellSides below cell).count (e, f) = 0 := by
  refine List.count_eq_zero.mpr fun member => ?_
  obtain ⟨a, b, apart, first, second⟩ := inCell_of_cellSides member
  exact foreign a b apart first second

/-- Within a cell, sides that are in no face cancel. -/
theorem count_cellSides_inside {below : Point → Bool} {cell : Point}
    {e f : LatticeEdge}
    (apart : ∀ face : LatticeFace, ¬ (e ∈ face.edges ∧ f ∈ face.edges)) :
    (cellSides below cell).count (e, f) =
      (cellSides below cell).count (f, e) := by
  by_cases own : ∃ a b : Edge, a.inCell cell = e ∧ b.inCell cell = f
  · obtain ⟨a, b, rfl, rfl⟩ := own
    unfold Edge.inCell
    rw [count_cellSides, count_cellSides]
    refine count_caseSides_inside (caseAt_lt below cell) fun face _ both => ?_
    refine apart (face.shift cell) ?_
    rw [LatticeFace.edges_shift]
    exact ⟨List.mem_map_of_mem both.1, List.mem_map_of_mem both.2⟩
  · -- sides of the cell would be between edges of its own
    have noPartner := not_exists.mp own
    rw [count_cellSides_eq_zero fun a b _ first second =>
        noPartner a ⟨b, first, second⟩,
      count_cellSides_eq_zero fun a b _ first second =>
        noPartner b ⟨a, second, first⟩]

/-! ## Sides in a face -/

theorem testBit_lowCase (axis : Axis) (case : Nat) (c : Corner) :
    (lowCase axis case).testBit c = (c.isLow axis && case.testBit c) := by
  simp [lowCase, testBit_binary, List.getD_eq_getElem?_getD]

theorem lowCase_lt (axis : Axis) (case : Nat) : lowCase axis case < 256 := by
  simpa [lowCase] using binary_lt ((List.finRange 8).map fun c : Corner =>
    c.isLow axis && case.testBit c)

theorem lowCase_lowCase (axis : Axis) (case : Nat) :
    lowCase axis (lowCase axis case) = lowCase axis case := by
  refine congrArg binary (List.map_congr_left fun c _ => ?_)
  show (c.isLow axis && (lowCase axis case).testBit c) = _
  rw [testBit_lowCase, ← Bool.and_assoc, Bool.and_self]

/-- The two cells of a face see the same corners in it. -/
theorem highCase_caseAt (below : Point → Bool) (cell : Point) (axis : Axis) :
    highCase axis (caseAt below cell) =
      lowCase axis (caseAt below (cell + axis.unit)) := by
  refine congrArg binary (List.map_congr_left fun c _ => ?_)
  cases low : c.isLow axis with
  | false => rw [Bool.false_and, Bool.false_and]
  | true =>
    rw [testBit_caseAt, testBit_caseAt, Corner.offset_opposite low,
      Point.add_assoc]

/-- The sides in a face, as the cell above it has them. -/
def faceSides (below : Point → Bool) (face : LatticeFace) :
    List (LatticeEdge × LatticeEdge) :=
  (caseSides (lowCase face.axis (caseAt below face.base))).map
    (shiftSide face.base)

section Faces

variable {below : Point → Bool} {face : LatticeFace} {e f : LatticeEdge}

theorem mem_low_edges (member : e ∈ face.edges) :
    ∃ e' ∈ (LatticeFace.low face.axis).edges, e'.shift face.base = e := by
  have edges : face.edges = (LatticeFace.low face.axis).edges.map
      (·.shift face.base) := by
    rw [← LatticeFace.edges_shift, LatticeFace.low_shift]
  rw [edges] at member
  obtain ⟨e', inside, same⟩ := List.mem_map.mp member
  exact ⟨e', inside, same⟩

theorem count_cellSides_above (first : e ∈ face.edges)
    (second : f ∈ face.edges) :
    (cellSides below face.base).count (e, f) =
      (faceSides below face).count (e, f) := by
  obtain ⟨e, inside, rfl⟩ := mem_low_edges first
  obtain ⟨f, inside', rfl⟩ := mem_low_edges second
  rw [count_cellSides,
    count_caseSides_low (caseAt_lt below face.base) inside inside']
  exact (List.count_map_of_injective _ _ (shiftSide_injective face.base)
    (e, f)).symm

theorem count_cellSides_below {cell : Point}
    (under : cell + face.axis.unit = face.base) (first : e ∈ face.edges)
    (second : f ∈ face.edges) :
    (cellSides below cell).count (e, f) =
      (faceSides below face).count (f, e) := by
  obtain ⟨e, inside, rfl⟩ := mem_low_edges first
  obtain ⟨f, inside', rfl⟩ := mem_low_edges second
  rw [← under, ← LatticeEdge.shift_shift, ← LatticeEdge.shift_shift,
    count_cellSides, count_caseSides_high (caseAt_lt below cell) inside inside',
    highCase_caseAt, LatticeEdge.shift_shift, LatticeEdge.shift_shift, under]
  exact (List.count_map_of_injective _ _ (shiftSide_injective face.base)
    (f, e)).symm

/-- Other cells have no sides in the face. -/
theorem count_cellSides_elsewhere {cell : Point} (first : e ∈ face.edges)
    (second : f ∈ face.edges) (notAbove : cell ≠ face.base)
    (notBelow : cell ≠ face.base - face.axis.unit) :
    (cellSides below cell).count (e, f) = 0 := by
  refine count_cellSides_eq_zero fun a b apart here there => ?_
  rw [← here] at first
  rw [← there] at second
  rcases LatticeFace.cell_of_edges apart first second with same | same
  -- two edges of a cell lie in a face only if it is one of the six
  · refine notAbove ?_
    rw [same]
    exact (Point.add_origin cell).symm
  · refine notBelow ?_
    have base : face.base = cell + face.axis.unit :=
      congrArg LatticeFace.base same
    rw [base, Point.add_sub_cancel_right]

end Faces

/-! ## The whole surface -/

/-- Of the two cells of a face, the region has both or none, unless the face
is on the outside. -/
theorem LatticeFace.isCell_iff {cells : Nat} {face : LatticeFace}
    (inner : ¬ face.Outer cells) :
    face.base.IsCell cells ↔ (face.base - face.axis.unit).IsCell cells := by
  obtain ⟨⟨x, y, z⟩, axis⟩ := face
  cases axis <;>
  · simp only [Outer, Axis.across, Point.along] at inner
    simp only [Point.IsCell, Axis.unit, Point.sub_x, Point.sub_y, Point.sub_z]
    omega

/-- A sum over a region to which only two cells contribute. -/
theorem sum_cellPoints {cells : Nat} {p q : Point} (count : Point → Nat)
    (apart : p ≠ q) (alike : p.IsCell cells ↔ q.IsCell cells)
    (elsewhere : ∀ cell, cell ≠ p → cell ≠ q → count cell = 0) :
    ((cellPoints cells).map count).sum =
      if p.IsCell cells then count p + count q else 0 := by
  rw [← List.sum_toFinset count (nodup_cellPoints cells)]
  split
  · next isCell =>
    refine Finset.sum_eq_add_of_mem p q ?_ ?_ apart fun cell _ other =>
      elsewhere cell other.1 other.2
    · exact List.mem_toFinset.mpr (mem_cellPoints.mpr isCell)
    · exact List.mem_toFinset.mpr (mem_cellPoints.mpr (alike.mp isCell))
  · next outside =>
    refine Finset.sum_eq_zero fun cell member => elsewhere cell ?_ ?_
    all_goals
      rintro rfl
      have isCell := mem_cellPoints.mp (List.mem_toFinset.mp member)
    · exact outside isCell
    · exact outside (alike.mpr isCell)

/-- The sides of all cells in a face are those of its two cells. -/
theorem count_surfaceSides_face {cells : Nat} {below : Point → Bool}
    {face : LatticeFace} {e f : LatticeEdge} (inner : ¬ face.Outer cells)
    (first : e ∈ face.edges) (second : f ∈ face.edges) :
    (surfaceSides cells below).count (e, f) =
      if face.base.IsCell cells then
        (faceSides below face).count (e, f) + (faceSides below face).count (f, e)
      else 0 := by
  have sum := sum_cellPoints (fun cell => (cellSides below cell).count (e, f))
    (Axis.sub_unit_ne face.base face.axis).symm (LatticeFace.isCell_iff inner)
    fun cell notAbove notBelow =>
      count_cellSides_elsewhere first second notAbove notBelow
  rw [surfaceSides_eq, List.count_flatMap]
  refine sum.trans ?_
  rw [count_cellSides_above first second,
    count_cellSides_below (Point.sub_add_cancel _ _) first second]

/-- **The surface is closed.** Between two edges, there are as many sides one
way as the other way, unless both are in a face on the outside. -/
theorem count_surfaceSides {cells : Nat} {below : Point → Bool}
    {e f : LatticeEdge}
    (inner : ∀ face : LatticeFace, e ∈ face.edges → f ∈ face.edges →
      ¬ face.Outer cells) :
    (surfaceSides cells below).count (e, f) =
      (surfaceSides cells below).count (f, e) := by
  by_cases shared : ∃ face : LatticeFace, e ∈ face.edges ∧ f ∈ face.edges
  · obtain ⟨face, first, second⟩ := shared
    have notOuter := inner face first second
    rw [count_surfaceSides_face notOuter first second,
      count_surfaceSides_face notOuter second first, Nat.add_comm]
  · -- sides in no face cancel in every cell alone
    rw [surfaceSides_eq, List.count_flatMap, List.count_flatMap]
    refine congrArg List.sum (List.map_congr_left fun cell _ => ?_)
    exact count_cellSides_inside (not_exists.mp shared)

/-! ## Directions -/

theorem LatticeEdge.leftOf_turn {out p : Point} {e f : LatticeEdge} :
    LeftOf (.origin - out) f e p ↔ LeftOf out e f p := by
  have same : (Point.origin - out).dot
      ((e.middle - f.middle).cross (p + p - f.middle)) =
      out.dot ((f.middle - e.middle).cross (p + p - e.middle)) := by
    simp only [Point.dot, Point.cross, Point.origin, Point.sub_x, Point.sub_y,
      Point.sub_z, Point.add_x, Point.add_y, Point.add_z]
    ring
  rw [LeftOf, same, LeftOf]

/-- The ends of the edges of a face are its corners. -/
theorem isLow_of_mem_ends {axis : Axis} {a : Edge} {c : Corner}
    (inside : a.placed ∈ (LatticeFace.low axis).edges)
    (joined : c.offset ∈ a.placed.ends) : c.isLow axis = true := by
  have tried : ∀ axis ∈ Axis.all, ∀ a : Edge,
      a.placed ∈ (LatticeFace.low axis).edges → ∀ c : Corner,
        c.offset ∈ a.placed.ends → c.isLow axis = true := by
    decide
  exact tried axis axis.mem_all a inside c joined

/-- The ends below the level are to the left of the sides in a face, as seen
from the cell below it. -/
theorem leftOf_of_faceSides {below : Point → Bool} {face : LatticeFace}
    {e f : LatticeEdge} (member : (e, f) ∈ faceSides below face)
    (first : e ∈ face.edges) (second : f ∈ face.edges) {p : Point}
    (joined : p ∈ e.ends ++ f.ends) (isBelow : below p = true) :
    LatticeEdge.LeftOf (.origin - face.axis.unit) e f p := by
  obtain ⟨_, placed, same⟩ := List.mem_map.mp member
  obtain ⟨⟨a, b⟩, side, rfl⟩ := List.mem_map.mp placed
  obtain ⟨rfl, rfl⟩ := Prod.mk.inj same
  -- moved to the origin, the side is one of those in the table
  have own : ∀ e : Edge, e.placed.shift face.base ∈ face.edges →
      e.placed ∈ (LatticeFace.low face.axis).edges := by
    intro e inside
    obtain ⟨e', inside', moved⟩ := mem_low_edges inside
    rwa [← LatticeEdge.shift_injective _ moved]
  have low := own a first
  have low' := own b second
  have atCorner : ∃ c : Corner, p = face.base + c.offset := by
    rcases List.mem_append.mp joined with here | there
    · rcases Edge.mem_ends_inCell.mp here with corner | corner
      · exact ⟨_, corner⟩
      · exact ⟨_, corner⟩
    · rcases Edge.mem_ends_inCell.mp there with corner | corner
      · exact ⟨_, corner⟩
      · exact ⟨_, corner⟩
  obtain ⟨c, rfl⟩ := atCorner
  simp only [List.mem_append, LatticeEdge.mem_ends_shift] at joined
  have lower : c.isLow face.axis = true := by
    rcases joined with here | there
    · exact isLow_of_mem_ends low here
    · exact isLow_of_mem_ends low' there
  have bit : (lowCase face.axis (caseAt below face.base)).testBit c = true := by
    rw [testBit_lowCase, lower, testBit_caseAt, isBelow]
    rfl
  rw [LatticeEdge.leftOf_shift]
  exact keepsLeft_of_edgeSides (lowCase_lt _ _) (lowCase_lowCase _ _) side
    (LatticeFace.holds_iff.mpr ⟨low, low'⟩) c bit (List.mem_append.mpr joined)

/-- **The surface is oriented.** Where a cell has more sides one way in one of
its faces, the ends below the level are to the left, as seen from outside. -/
theorem leftOf_of_cellSides {below : Point → Bool} {cell : Point}
    {face : LatticeFace} {out : Point}
    (around : (face, out) ∈ LatticeFace.ofCell cell) {e f : LatticeEdge}
    (first : e ∈ face.edges) (second : f ∈ face.edges)
    (more : (cellSides below cell).count (f, e) <
      (cellSides below cell).count (e, f))
    {p : Point} (joined : p ∈ e.ends ++ f.ends) (isBelow : below p = true) :
    LatticeEdge.LeftOf out e f p := by
  obtain ⟨axis, -, pair⟩ := List.mem_flatMap.mp around
  rcases List.mem_cons.mp pair with lower | upper
  · obtain ⟨rfl, rfl⟩ := Prod.mk.inj lower
    rw [LatticeFace.low_shift] at first second
    have counted : (cellSides below cell).count (e, f) =
        (faceSides below ⟨cell, axis⟩).count (e, f) :=
      count_cellSides_above first second
    rw [counted] at more
    have member := List.count_pos_iff.mp (Nat.zero_lt_of_lt more)
    exact leftOf_of_faceSides member first second joined isBelow
  · obtain ⟨rfl, rfl⟩ := Prod.mk.inj (List.mem_singleton.mp upper)
    have under : cell + axis.unit =
        ((LatticeFace.high axis).shift cell).base := rfl
    -- the cell below has the sides turned round, and sees them from behind
    rw [count_cellSides_below under first second] at more
    have member := List.count_pos_iff.mp (Nat.zero_lt_of_lt more)
    refine LatticeEdge.leftOf_turn.mp ?_
    exact leftOf_of_faceSides member second first
      (List.mem_append.mpr (List.mem_append.mp joined).symm) isBelow

end FieldMesh.Mesh
