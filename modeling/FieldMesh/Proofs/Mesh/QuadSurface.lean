import FieldMesh.Proofs.Mesh.Quads

/-!
# The surface of the quads of a region

The quads around the four edges of a face meet in one side, which they run
along in either direction. As the points around the face change sides of the
level back and forth, so do the directions, and the sides cancel.

* `quadSides`: the sides of the triangles around an edge, by which of its ends
  are below the level;
* `surfaceQuadSides`: those of all quads of a region;
* `count_surfaceQuadSides_step`: sides between neighbouring points cancel
  inside the region;
* `count_surfaceQuadSides_diagonal`: sides between other points cancel
  everywhere.
-/

namespace FieldMesh.Mesh

/-! ## Sides around an edge -/

/-- The sides of the triangles around an edge, if exactly one of its ends is
below the level. -/
def quadSides (lower upper : Bool) (e : LatticeEdge) : List (Point × Point) :=
  if lower != upper then
    let (a, b, c, d) := e.anchors
    (Surface.quadTriangles upper a b c d).flatMap triangleSides
  else []

/-- The sides of the triangles around an edge. -/
def sidesAround (below : Point → Bool) (e : LatticeEdge) :
    List (Point × Point) :=
  quadSides (below e.base) (below (e.base + e.axis.unit)) e

/-- The sides of all triangles of a region. -/
def surfaceQuadSides (cells : Nat) (below : Point → Bool) :
    List (Point × Point) :=
  (quadSurface cells below).flatMap triangleSides

/-- A side further on. -/
def shiftPair (p : Point) (side : Point × Point) : Point × Point :=
  (p + side.1, p + side.2)

theorem shiftPair_injective (p : Point) : Function.Injective (shiftPair p) := by
  rintro ⟨a, b⟩ ⟨c, d⟩ same
  obtain ⟨first, second⟩ := Prod.mk.inj same
  have firsts : a = c := Point.add_left_cancel first
  have seconds : b = d := Point.add_left_cancel second
  rw [firsts, seconds]

theorem quadSides_shift (lower upper : Bool) (p : Point) (e : LatticeEdge) :
    quadSides lower upper (e.shift p) =
      (quadSides lower upper e).map (shiftPair p) := by
  have anchors : (e.shift p).anchors =
      (p + e.anchors.1, p + e.anchors.2.1, p + e.anchors.2.2.1,
        p + e.anchors.2.2.2) := by
    simp only [LatticeEdge.anchors, LatticeEdge.shift, Prod.mk.injEq]
    refine ⟨?_, ?_, trivial, ?_⟩ <;> ext <;> simp <;> omega
  unfold quadSides
  rw [anchors]
  cases lower <;> cases upper <;> rfl

theorem count_quadSides_shift (lower upper : Bool) (p : Point) (e : LatticeEdge)
    (side : Point × Point) :
    (quadSides lower upper (e.shift p)).count (shiftPair p side) =
      (quadSides lower upper e).count side := by
  rw [quadSides_shift]
  exact List.count_map_of_injective _ _ (shiftPair_injective p) side

/-- Every edge is one at the far corner of the cell at the origin, moved. -/
theorem exists_shift (e : LatticeEdge) :
    ∃ (p : Point) (axis : Axis), (farEdge .origin axis).shift p = e := by
  obtain ⟨base, axis⟩ := e
  refine ⟨base - (axis.across.1.unit + axis.across.2.unit), axis, ?_⟩
  simp only [farEdge, LatticeEdge.shift, LatticeEdge.mk.injEq, and_true]
  ext <;> simp [Point.origin]

/-- The sides of all triangles, edge by edge. -/
theorem surfaceQuadSides_eq (cells : Nat) (below : Point → Bool) :
    surfaceQuadSides cells below =
      (crossedEdges cells below).flatMap (sidesAround below) := by
  rw [surfaceQuadSides, quadSurface, List.flatMap_assoc]
  refine List.flatMap_congr fun e member => ?_
  have crossed : (below e.base != below (e.base + e.axis.unit)) = true :=
    (mem_crossedEdges.mp member).2
  rw [sidesAround, quadSides, if_pos crossed]
  rfl

/-! ## Diagonals -/

/-- Whether two points are neighbours along an axis. -/
def Point.isNext (p q : Point) : Bool :=
  Axis.all.any fun axis => q == p + axis.unit || p == q + axis.unit

theorem Point.isNext_iff {p q : Point} :
    p.isNext q = true ↔
      ∃ axis : Axis, q = p + axis.unit ∨ p = q + axis.unit := by
  simp [isNext, Axis.mem_all]

theorem Point.isNext_shift (r p q : Point) :
    (r + p).isNext (r + q) = p.isNext q := by
  have moved : ∀ {a b c : Point}, r + a = r + b + c ↔ a = b + c := by
    intro a b c
    rw [Point.add_assoc]
    exact ⟨Point.add_left_cancel, congrArg (r + ·)⟩
  rw [Bool.eq_iff_iff, isNext_iff, isNext_iff]
  simp only [moved]

/-- Whether the points of a side are not neighbours. -/
def isDiagonal (side : Point × Point) : Bool := !side.1.isNext side.2

theorem isDiagonal_iff {p q : Point} :
    isDiagonal (p, q) = true ↔
      ¬ ∃ axis : Axis, q = p + axis.unit ∨ p = q + axis.unit := by
  rw [isDiagonal, Bool.not_eq_true', ← Point.isNext_iff, Bool.not_eq_true]

/-- Around an edge, sides between points that are not neighbours cancel. -/
theorem count_quadSides_diagonal {lower upper : Bool} {e : LatticeEdge}
    {p q : Point} (first : isDiagonal (p, q) = true)
    (second : isDiagonal (q, p) = true) :
    (quadSides lower upper e).count (p, q) =
      (quadSides lower upper e).count (q, p) := by
  -- up to a move there is one edge along each axis
  have tried : ∀ lower upper : Bool, ∀ axis ∈ Axis.all,
      let sides := quadSides lower upper (farEdge .origin axis)
      (sides.filter isDiagonal).isPerm
        ((sides.filter isDiagonal).map Prod.swap) = true := by
    decide
  obtain ⟨s, axis, rfl⟩ := exists_shift e
  obtain ⟨p, rfl⟩ := s.exists_add p
  obtain ⟨q, rfl⟩ := s.exists_add q
  rw [isDiagonal, Point.isNext_shift] at first second
  have cancelled := count_swap first second
    (tried lower upper axis axis.mem_all)
  exact (count_quadSides_shift lower upper s _ (p, q)).trans
    (cancelled.trans (count_quadSides_shift lower upper s _ (q, p)).symm)

/-- **Diagonals cancel**, wherever they are. -/
theorem count_surfaceQuadSides_diagonal (cells : Nat) (below : Point → Bool)
    {p q : Point} (first : isDiagonal (p, q) = true)
    (second : isDiagonal (q, p) = true) :
    (surfaceQuadSides cells below).count (p, q) =
      (surfaceQuadSides cells below).count (q, p) := by
  rw [surfaceQuadSides_eq, List.count_flatMap, List.count_flatMap]
  exact congrArg List.sum (List.map_congr_left fun e _ =>
    count_quadSides_diagonal first second)

/-! ## Steps -/

/-- The face whose edges have the quads that meet in the side from a point to
the next one along an axis. -/
def stepFace (p : Point) (axis : Axis) : LatticeFace := ⟨p + axis.unit, axis⟩

/-- Only these quads have the side. -/
theorem mem_stepFace {lower upper : Bool} {e : LatticeEdge} {p : Point}
    {axis : Axis}
    (side : (p, p + axis.unit) ∈ quadSides lower upper e ∨
      (p + axis.unit, p) ∈ quadSides lower upper e) :
    e ∈ (stepFace p axis).edges := by
  have tried : ∀ lower upper : Bool, ∀ along ∈ Axis.all,
      ∀ side ∈ quadSides lower upper (farEdge .origin along),
        ∀ axis ∈ Axis.all,
          (side.2 = side.1 + axis.unit →
            farEdge .origin along ∈ (stepFace side.1 axis).edges) ∧
          (side.1 = side.2 + axis.unit →
            farEdge .origin along ∈ (stepFace side.2 axis).edges) := by
    decide
  obtain ⟨s, along, rfl⟩ := exists_shift e
  obtain ⟨p, rfl⟩ := s.exists_add p
  have moved : stepFace (s + p) axis = (stepFace p axis).shift s := by
    rw [stepFace, stepFace, LatticeFace.shift, Point.add_assoc]
  rw [moved, LatticeFace.edges_shift]
  refine List.mem_map_of_mem ?_
  rw [quadSides_shift, Point.add_assoc] at side
  rcases side with forth | back
  · exact (tried lower upper along along.mem_all (p, p + axis.unit)
      ((List.mem_map_of_injective (shiftPair_injective s)).mp forth)
      axis axis.mem_all).1 rfl
  · exact (tried lower upper along along.mem_all (p + axis.unit, p)
      ((List.mem_map_of_injective (shiftPair_injective s)).mp back)
      axis axis.mem_all).2 rfl

/-- The sides around the four edges of the face at the origin, by which of its
points are below the level. -/
def loopSides (axis : Axis) (b₀ b₁ b₂ b₃ : Bool) : List (List (Point × Point)) :=
  let (u, v) := axis.across
  let p := Point.origin + axis.unit
  [quadSides b₀ b₁ ⟨p, u⟩, quadSides b₁ b₂ ⟨p + u.unit, v⟩,
    quadSides b₃ b₂ ⟨p + v.unit, u⟩, quadSides b₀ b₃ ⟨p, v⟩]

/-- Going around a face, the level is crossed as often up as down. -/
theorem sum_loopSides (axis : Axis) (b₀ b₁ b₂ b₃ : Bool) :
    ((loopSides axis b₀ b₁ b₂ b₃).map (·.count (.origin, axis.unit))).sum =
      ((loopSides axis b₀ b₁ b₂ b₃).map (·.count (axis.unit, .origin))).sum := by
  have tried : ∀ axis ∈ Axis.all, ∀ b₀ b₁ b₂ b₃ : Bool,
      ((loopSides axis b₀ b₁ b₂ b₃).map (·.count (.origin, axis.unit))).sum =
        ((loopSides axis b₀ b₁ b₂ b₃).map
          (·.count (axis.unit, .origin))).sum := by
    decide
  exact tried axis axis.mem_all b₀ b₁ b₂ b₃

/-- Around a face, sides along the axis across it cancel. -/
theorem sum_stepFace (below : Point → Bool) (p : Point) (axis : Axis) :
    ((stepFace p axis).edges.map fun e =>
        (sidesAround below e).count (p, p + axis.unit)).sum =
      ((stepFace p axis).edges.map fun e =>
        (sidesAround below e).count (p + axis.unit, p)).sum := by
  let near (q : Point) : Bool := below (p + q)
  -- only the four points of the face matter
  have around : (stepFace .origin axis).edges.map (sidesAround near) =
      loopSides axis (near (.origin + axis.unit))
        (near (.origin + axis.unit + axis.across.1.unit))
        (near (.origin + axis.unit + axis.across.1.unit +
          axis.across.2.unit))
        (near (.origin + axis.unit + axis.across.2.unit)) := by
    cases axis <;> rfl
  have moved : stepFace p axis = (stepFace .origin axis).shift p := by
    rw [stepFace, stepFace, LatticeFace.shift, ← Point.add_assoc,
      Point.add_origin]
  have counted (q r : Point) :
      ((stepFace p axis).edges.map fun e =>
        (sidesAround below e).count (p + q, p + r)) =
      ((stepFace .origin axis).edges.map (sidesAround near)).map
        (·.count (q, r)) := by
    rw [moved, LatticeFace.edges_shift, List.map_map, List.map_map]
    refine List.map_congr_left fun e _ => ?_
    have same : sidesAround below (e.shift p) =
        quadSides (near e.base) (near (e.base + e.axis.unit)) (e.shift p) := by
      rw [sidesAround, LatticeEdge.shift, Point.add_assoc]
    show (sidesAround below (e.shift p)).count _ = _
    rw [same]
    exact count_quadSides_shift _ _ p e (q, r)
  have first := counted .origin axis.unit
  have second := counted axis.unit .origin
  rw [Point.add_origin] at first second
  rw [first, second, around]
  exact sum_loopSides axis _ _ _ _

/-- Whether a point and the next one along an axis are points of the region,
neither of them on its rim across the axis. -/
def Point.StepInside (cells : Nat) (p : Point) (axis : Axis) : Prop :=
  let (u, v) := axis.across
  (0 ≤ p.along axis ∧ p.along axis + 1 ≤ cells) ∧
    (1 ≤ p.along u ∧ p.along u + 1 ≤ cells) ∧
    (1 ≤ p.along v ∧ p.along v + 1 ≤ cells)

instance (cells : Nat) (p : Point) (axis : Axis) :
    Decidable (p.StepInside cells axis) :=
  inferInstanceAs (Decidable (_ ∧ _))

/-- All four edges around such a step can have quads. -/
theorem inside_of_stepFace {cells : Nat} {p : Point} {axis : Axis}
    (inside : p.StepInside cells axis) {e : LatticeEdge}
    (around : e ∈ (stepFace p axis).edges) : e.Inside cells := by
  cases axis <;>
  · simp only [stepFace, LatticeFace.edges, Axis.across, List.mem_cons,
      List.not_mem_nil, or_false] at around
    simp only [Point.StepInside, Axis.across, Point.along] at inside
    rcases around with rfl | rfl | rfl | rfl <;>
    · simp only [LatticeEdge.Inside, Axis.across, Point.along, Axis.unit,
        Point.add_x, Point.add_y, Point.add_z]
      omega

theorem nodup_edges (face : LatticeFace) : face.edges.Nodup := by
  have tried : ∀ axis ∈ Axis.all, (LatticeFace.low axis).edges.Nodup := by
    decide
  obtain ⟨base, axis⟩ := face
  rw [← LatticeFace.low_shift, LatticeFace.edges_shift]
  exact (tried axis axis.mem_all).map (LatticeEdge.shift_injective base)

/-- Only the edges around a step have quads with that side. -/
theorem count_surfaceQuadSides_around {cells : Nat} (below : Point → Bool)
    {p : Point} {axis : Axis} (inside : p.StepInside cells axis)
    {side : Point × Point}
    (along : side = (p, p + axis.unit) ∨ side = (p + axis.unit, p)) :
    (surfaceQuadSides cells below).count side =
      ((stepFace p axis).edges.map fun e =>
        (sidesAround below e).count side).sum := by
  rw [surfaceQuadSides_eq, List.count_flatMap,
    ← List.sum_toFinset _ (nodup_crossedEdges cells below),
    ← List.sum_toFinset _ (nodup_edges _)]
  refine Finset.sum_congr_of_eq_on_inter (fun e _ apart => ?_)
    (fun e around apart => ?_) (fun e _ _ => rfl)
  · refine List.count_eq_zero.mpr fun member =>
      apart (List.mem_toFinset.mpr ?_)
    rcases along with rfl | rfl
    · exact mem_stepFace (.inl member)
    · exact mem_stepFace (.inr member)
  · -- an edge of the face without a quad is not crossed
    have inside := inside_of_stepFace inside (List.mem_toFinset.mp around)
    have level : ¬ e.crossed below = true := fun crossed =>
      apart (List.mem_toFinset.mpr (mem_crossedEdges.mpr ⟨inside, crossed⟩))
    have empty : sidesAround below e = [] := if_neg level
    rw [empty, List.count_nil]

/-- **Steps cancel** away from the rim. -/
theorem count_surfaceQuadSides_step {cells : Nat} (below : Point → Bool)
    {p : Point} {axis : Axis} (inside : p.StepInside cells axis) :
    (surfaceQuadSides cells below).count (p, p + axis.unit) =
      (surfaceQuadSides cells below).count (p + axis.unit, p) := by
  rw [count_surfaceQuadSides_around below inside (.inl rfl),
    count_surfaceQuadSides_around below inside (.inr rfl)]
  exact sum_stepFace below p axis

end FieldMesh.Mesh
