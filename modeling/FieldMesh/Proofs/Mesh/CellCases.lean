import Mathlib.Data.List.Count
import Mathlib.Data.Prod.Basic
import FieldMesh.Mesh.CaseTable
import FieldMesh.Proofs.Mesh.Geometry

/-!
# The sides of the triangles of a cell

The table of triangles is checked here case by case, for what makes surfaces
close: sides inside a cell cancel, and what is left in a face depends on the
corners of this face only. So the two cells of a face have the same sides in
it, in opposite directions.

* `caseSides`: the sides of the triangles of a case, as they are put out;
* `passes`: what all 256 cases are checked for, in one go;
* `count_caseSides_inside`: sides that lie in no face of the cell cancel;
* `count_caseSides_low`, `count_caseSides_high`: sides in a face depend on its
  corners, and are turned round as seen from the other side;
* `keepsLeft_of_edgeSides`: the corners below the level are to the left of
  sides in a face;
* `testBit_of_triangles`: triangles have their corners on crossed edges.
-/

namespace FieldMesh.Mesh

/-! ## Sides -/

/-- The sides of a triangle, each from a corner to the next one. -/
def triangleSides : α × α × α → List (α × α)
  | (a, b, c) => [(a, b), (b, c), (c, a)]

/-- The corners of a triangle. -/
def triangleCorners (t : α × α × α) : List α := [t.1, t.2.1, t.2.2]

/-- A triangle of the table as it is put out, with the last two corners
exchanged. -/
def emitted : EdgeTriangle → EdgeTriangle
  | (i, j, k) => (i, k, j)

/-- The sides of the triangles of a case, as they are put out. -/
def edgeSides (case : Nat) : List (Edge × Edge) :=
  (triangles case).flatMap fun t => triangleSides (emitted t)

/-- The same in the lattice, for the cell at the origin. -/
def caseSides (case : Nat) : List (LatticeEdge × LatticeEdge) :=
  (edgeSides case).map fun (a, b) => (a.placed, b.placed)

/-- Where the sides of a kind are the same turned round, as many of them go
one way as the other way. -/
theorem count_swap {α : Type} [DecidableEq α] {sides : List (α × α)}
    {kind : α × α → Bool} {a b : α} (first : kind (a, b) = true)
    (second : kind (b, a) = true)
    (turned : (sides.filter kind).isPerm
      ((sides.filter kind).map Prod.swap) = true) :
    sides.count (a, b) = sides.count (b, a) :=
  calc sides.count (a, b)
      = (sides.filter kind).count (a, b) := (List.count_filter first).symm
    _ = ((sides.filter kind).map Prod.swap).count (Prod.swap (b, a)) :=
        (List.isPerm_iff.mp turned).count_eq _
    _ = (sides.filter kind).count (b, a) :=
        List.count_map_of_injective _ _ Prod.swap_injective _
    _ = sides.count (b, a) := List.count_filter second

/-- Whether a side lies in a face. -/
def LatticeFace.holds (f : LatticeFace) (side : LatticeEdge × LatticeEdge) :
    Bool :=
  f.edges.contains side.1 && f.edges.contains side.2

theorem LatticeFace.holds_iff {f : LatticeFace} {e e' : LatticeEdge} :
    f.holds (e, e') = true ↔ e ∈ f.edges ∧ e' ∈ f.edges := by
  simp [holds]

/-! ## Cases seen from a face -/

/-- The corner one step further along an axis, if there is one. -/
def Corner.opposite (axis : Axis) (c : Corner) : Corner :=
  ((List.finRange 8).find? fun b : Corner =>
    b.offset == axis.unit + c.offset).getD c

/-- Whether a corner is at the lower end of an axis. -/
def Corner.isLow (axis : Axis) (c : Corner) : Bool := c.offset.along axis == 0

theorem Corner.offset_opposite {axis : Axis} {c : Corner}
    (low : c.isLow axis = true) :
    (c.opposite axis).offset = axis.unit + c.offset := by
  have tried : ∀ axis ∈ Axis.all, ∀ c : Corner, c.isLow axis = true →
      (c.opposite axis).offset = axis.unit + c.offset := by
    decide
  exact tried axis axis.mem_all c low

/-- The case with only those corners below that a case has below in its face
at the lower end of an axis. -/
def lowCase (axis : Axis) (case : Nat) : Nat :=
  binary ((List.finRange 8).map fun c : Corner =>
    c.isLow axis && case.testBit c)

/-- The same for the face at the upper end, brought to the lower end. -/
def highCase (axis : Axis) (case : Nat) : Nat :=
  binary ((List.finRange 8).map fun c : Corner =>
    c.isLow axis && case.testBit (c.opposite axis))

/-! ## Checks of a case -/

/-- Whether a side lies in no face of the cell. -/
def isInside (side : LatticeEdge × LatticeEdge) : Bool :=
  !LatticeFace.around.any (·.holds side)

/-- A side one step further along an axis, the other way round. -/
def turnedAcross (axis : Axis) (side : LatticeEdge × LatticeEdge) :
    LatticeEdge × LatticeEdge :=
  (side.2.shift axis.unit, side.1.shift axis.unit)

/-- Whether the corners below the level are to the left of a side in the face
at the lower end of an axis, as seen from there. -/
def KeepsLeft (axis : Axis) (case : Nat) (side : Edge × Edge) : Prop :=
  (LatticeFace.low axis).holds (side.1.placed, side.2.placed) = true →
    ∀ c : Corner, case.testBit c = true →
      c.offset ∈ side.1.placed.ends ++ side.2.placed.ends →
      LatticeEdge.LeftOf (.origin - axis.unit) side.1.placed side.2.placed
        c.offset

/-- The same as a check. -/
def keepsLeft (axis : Axis) (case : Nat) (side : Edge × Edge) : Bool :=
  !(LatticeFace.low axis).holds (side.1.placed, side.2.placed) ||
    (List.finRange 8).all fun c : Corner =>
      !case.testBit c ||
      !(side.1.placed.ends ++ side.2.placed.ends).contains c.offset ||
      decide (LatticeEdge.LeftOf (.origin - axis.unit) side.1.placed
        side.2.placed c.offset)

theorem keepsLeft_iff {axis : Axis} {case : Nat} {side : Edge × Edge} :
    keepsLeft axis case side = true ↔ KeepsLeft axis case side := by
  simp [keepsLeft, KeepsLeft, or_iff_not_imp_left]

/-- Whether the bits for edges are those of the edges that are crossed. -/
def marksCrossed (case : Nat) : Bool :=
  edges.all fun e => (crossingMask case).testBit e == e.crosses case

/-- Whether corners of triangles are on edges that have their bit set. -/
def cornersMarked (case : Nat) : Bool :=
  (triangles case).all fun t =>
    (crossingMask case).testBit t.1 && (crossingMask case).testBit t.2.1 &&
      (crossingMask case).testBit t.2.2

/-- Whether there are at most five triangles. -/
def fewTriangles (case : Nat) : Bool := (triangles case).length ≤ 5

/-- Whether the two corners of each side are on different edges. -/
def sidesApart (case : Nat) : Bool :=
  (edgeSides case).all fun side => side.1 != side.2

/-- Whether the sides in no face of the cell are the same turned round. -/
def insideCancels (case : Nat) : Bool :=
  ((caseSides case).filter isInside).isPerm
    (((caseSides case).filter isInside).map Prod.swap)

/-- Whether the sides in the face at the lower end of an axis depend on its
corners only. -/
def lowAgrees (axis : Axis) (case : Nat) : Bool :=
  ((caseSides case).filter (LatticeFace.low axis).holds).isPerm
    ((caseSides (lowCase axis case)).filter (LatticeFace.low axis).holds)

/-- Whether the sides in the face at the upper end of an axis are those of a
cell with the same corners at its lower end, turned round. -/
def highTurned (axis : Axis) (case : Nat) : Bool :=
  ((caseSides case).filter (LatticeFace.high axis).holds).isPerm
    (((caseSides (highCase axis case)).filter
      (LatticeFace.low axis).holds).map (turnedAcross axis))

/-- Whether sides keep the corners below the level to their left, if there is
none off the face at the lower end of an axis. -/
def leftKept (axis : Axis) (case : Nat) : Bool :=
  lowCase axis case != case || (edgeSides case).all (keepsLeft axis case)

/-- A check along every axis. -/
def alongAxes (check : Axis → Nat → Bool) (case : Nat) : Bool :=
  Axis.all.all fun axis => check axis case

theorem of_alongAxes {check : Axis → Nat → Bool} {case : Nat}
    (passed : alongAxes check case = true) (axis : Axis) :
    check axis case = true :=
  List.all_eq_true.mp passed axis axis.mem_all

/-! ## The table -/

/-- What every case of the table has to pass. -/
def checks : List (Nat → Bool) :=
  [marksCrossed, cornersMarked, fewTriangles, sidesApart, insideCancels,
    alongAxes lowAgrees, alongAxes highTurned, alongAxes leftKept]

/-- Every case passes every check. The table is evaluated once, for all of
them. -/
theorem passes {check : Nat → Bool} (listed : check ∈ checks) {case : Nat}
    (small : case < 256) : check case = true := by
  have tried : ((List.range 256).all fun case => checks.all (· case)) = true := by
    decide +kernel
  have row := List.all_eq_true.mp tried case (List.mem_range.mpr small)
  exact List.all_eq_true.mp row check listed

/-- The table of edges has a bit for each edge that is crossed. -/
theorem testBit_crossingMask {case : Nat} (small : case < 256) (e : Edge) :
    (crossingMask case).testBit e = e.crosses case := by
  have passed : marksCrossed case = true := passes (by simp [checks]) small
  exact beq_iff_eq.mp (List.all_eq_true.mp passed e (List.mem_finRange e))

/-- Corners of triangles are on crossed edges. -/
theorem testBit_of_triangles {case : Nat} (small : case < 256)
    {t : EdgeTriangle} (member : t ∈ triangles case) :
    (crossingMask case).testBit t.1 ∧ (crossingMask case).testBit t.2.1 ∧
      (crossingMask case).testBit t.2.2 := by
  have passed : cornersMarked case = true := passes (by simp [checks]) small
  have row := List.all_eq_true.mp passed t member
  rwa [Bool.and_eq_true, Bool.and_eq_true, and_assoc] at row

/-- There are at most five triangles in a cell. -/
theorem length_triangles {case : Nat} (small : case < 256) :
    (triangles case).length ≤ 5 := by
  have passed : fewTriangles case = true := passes (by simp [checks]) small
  exact of_decide_eq_true passed

/-- The two corners of a side are on different edges. -/
theorem ne_of_edgeSides {case : Nat} (small : case < 256) {a b : Edge}
    (member : (a, b) ∈ edgeSides case) : a ≠ b := by
  have passed : sidesApart case = true := passes (by simp [checks]) small
  exact bne_iff_ne.mp (List.all_eq_true.mp passed (a, b) member)

theorem isInside_of_apart {e f : LatticeEdge}
    (apart : ∀ face ∈ LatticeFace.around, ¬ (e ∈ face.edges ∧ f ∈ face.edges)) :
    isInside (e, f) = true := by
  rw [isInside, Bool.not_eq_true', List.any_eq_false]
  intro face member holds
  exact apart face member (LatticeFace.holds_iff.mp holds)

/-- Sides that are in no face of the cell have their opposites. -/
theorem count_caseSides_inside {case : Nat} (small : case < 256)
    {e f : LatticeEdge}
    (apart : ∀ face ∈ LatticeFace.around, ¬ (e ∈ face.edges ∧ f ∈ face.edges)) :
    (caseSides case).count (e, f) = (caseSides case).count (f, e) := by
  have passed : insideCancels case = true := passes (by simp [checks]) small
  exact count_swap (isInside_of_apart apart)
    (isInside_of_apart fun face member both => apart face member both.symm)
    passed

/-- Sides in the face at the lower end of an axis depend on its corners. -/
theorem count_caseSides_low {case : Nat} (small : case < 256) {axis : Axis}
    {e f : LatticeEdge} (first : e ∈ (LatticeFace.low axis).edges)
    (second : f ∈ (LatticeFace.low axis).edges) :
    (caseSides case).count (e, f) =
      (caseSides (lowCase axis case)).count (e, f) := by
  have passed : lowAgrees axis case = true :=
    of_alongAxes (passes (by simp [checks]) small) axis
  have holds := LatticeFace.holds_iff.mpr ⟨first, second⟩
  rw [← List.count_filter holds, ← List.count_filter (l := caseSides _) holds]
  exact (List.isPerm_iff.mp passed).count_eq _

/-- Sides in the face at the upper end of an axis are those that a cell with
the same corners at its lower end has there, turned round. -/
theorem count_caseSides_high {case : Nat} (small : case < 256) {axis : Axis}
    {e f : LatticeEdge} (first : e ∈ (LatticeFace.low axis).edges)
    (second : f ∈ (LatticeFace.low axis).edges) :
    (caseSides case).count (e.shift axis.unit, f.shift axis.unit) =
      (caseSides (highCase axis case)).count (f, e) := by
  have passed : highTurned axis case = true :=
    of_alongAxes (passes (by simp [checks]) small) axis
  have holds := LatticeFace.holds_iff.mpr ⟨second, first⟩
  have upper : (LatticeFace.high axis).holds
      (e.shift axis.unit, f.shift axis.unit) = true := by
    have high : (LatticeFace.low axis).shift axis.unit =
        LatticeFace.high axis := LatticeFace.low_shift axis.unit axis
    rw [LatticeFace.holds_iff, ← high, LatticeFace.edges_shift]
    exact ⟨List.mem_map_of_mem first, List.mem_map_of_mem second⟩
  have injective : Function.Injective (turnedAcross axis) := by
    rintro ⟨a, b⟩ ⟨c, d⟩ equal
    obtain ⟨seconds, firsts⟩ := Prod.mk.inj equal
    have first : a = c := LatticeEdge.shift_injective _ firsts
    have second : b = d := LatticeEdge.shift_injective _ seconds
    rw [first, second]
  calc (caseSides case).count (e.shift axis.unit, f.shift axis.unit)
      = ((caseSides case).filter (LatticeFace.high axis).holds).count
          (turnedAcross axis (f, e)) := (List.count_filter upper).symm
    _ = (((caseSides (highCase axis case)).filter
          (LatticeFace.low axis).holds).map (turnedAcross axis)).count
            (turnedAcross axis (f, e)) :=
        (List.isPerm_iff.mp passed).count_eq _
    _ = ((caseSides (highCase axis case)).filter
          (LatticeFace.low axis).holds).count (f, e) :=
        List.count_map_of_injective _ _ injective _
    _ = (caseSides (highCase axis case)).count (f, e) :=
        List.count_filter holds

/-! ## Directions -/

theorem keepsLeft_of_edgeSides {case : Nat} (small : case < 256) {axis : Axis}
    (only : lowCase axis case = case) {side : Edge × Edge}
    (member : side ∈ edgeSides case) : KeepsLeft axis case side := by
  have passed : leftKept axis case = true :=
    of_alongAxes (passes (by simp [checks]) small) axis
  rcases Bool.or_eq_true_iff.mp passed with other | left
  · exact absurd only (bne_iff_ne.mp other)
  · exact keepsLeft_iff.mp (List.all_eq_true.mp left side member)

end FieldMesh.Mesh
