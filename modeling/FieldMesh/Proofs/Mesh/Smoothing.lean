import FieldMesh.Proofs.Mesh.DualContouring

/-!
# Smoothing moves every vertex once

Two ways of looking at the sides of the level meet here. A point gets a vertex
because some edge near it is crossed and has a quad, as seen from the cell
that writes the quad. Smoothing looks at the case of the point's own cell,
which may reach into the border. Both see the same edge, so no vertex is
passed over, and no mean is taken of nothing.

* `crossedAt`: the crossed edges of the cell above a point;
* `crossedAt_ne_nil`: a point with a vertex has some;
* `meanCrossing_eq`: the mean of the crossings on them;
* `Field.moveTo`: the vertex of a point is moved;
* `Surface.Holds.smooth_eq`: smoothing does this for each point with a vertex;
* `Buffers.Moves`: what moving vertices leaves as it is;
* `dualContouring_smooth`: smoothing, compared with a run without it.
-/

namespace FieldMesh.Mesh

/-! ## Crossings of a cell -/

/-- The edges of the cell above a point that join different sides of the
level. -/
def crossedAt (below : Point → Bool) (p : Point) : List Edge :=
  edges.filter fun e =>
    below (p + e.ends.1.offset) != below (p + e.ends.2.offset)

/-- Where an edge of a cell is crossed, relative to the least corner of the
cell and held inside it. -/
def clampedCrossing (corners : Corners) (level : Float32) (e : Edge) : Vec3 :=
  (e.ends.1.offset.toVec3 +
    e.direction.toVec3.scale (edgeCrossing corners level e)).clamp
      Vec3.zero (.splat 1.0)

/-- The mean of vectors, summed from the left. -/
def meanOf (vs : List Vec3) : Vec3 :=
  (vs.foldl (· + ·) Vec3.zero).shrink (.ofNat vs.length)

/-- The bits of the mask are those of the crossed edges. -/
theorem filter_crossingMask (below : Point → Bool) (p : Point) :
    edges.filter (fun e : Edge => (crossingMask (caseAt below p)).testBit e) =
      crossedAt below p := by
  refine List.filter_congr fun e _ => ?_
  rw [testBit_crossingMask (caseAt_lt below p), Edge.crosses, testBit_caseAt,
    testBit_caseAt]

theorem crossingMask_ne_zero {below : Point → Bool} {p : Point}
    (filled : crossedAt below p ≠ []) : crossingMask (caseAt below p) ≠ 0 := by
  intro zero
  refine filled ?_
  rw [← filter_crossingMask, zero]
  simp

/-- A point with a vertex has a crossed edge in its own cell: the one whose
quad asked for the vertex. -/
theorem crossedAt_ne_nil {cells : Nat} {below : Point → Bool} {p : Point}
    (member : p ∈ vertexPoints cells below) : crossedAt below p ≠ [] := by
  obtain ⟨e, crossed, a, rfl⟩ := mem_vertexPoints.mp member
  have apart := (mem_crossedEdges.mp crossed).2
  rw [LatticeEdge.crossed, bne_iff_ne] at apart
  refine List.ne_nil_of_mem (a := a)
    (List.mem_filter.mpr ⟨List.mem_finRange a, bne_iff_ne.mpr fun same => ?_⟩)
  have side : ∀ q ∈ (a.inCell p).ends, below q = below (p + a.ends.1.offset) := by
    intro q member
    rcases Edge.mem_ends_inCell.mp member with rfl | rfl
    · rfl
    · exact same.symm
  simp only [LatticeEdge.ends, List.forall_mem_cons] at side
  exact apart (side.1.trans side.2.1.symm)

/-- The mean of the crossings of a cell with a crossed edge. -/
theorem meanCrossing_eq {corners : Corners} {level : Float32}
    {below : Point → Bool} {p : Point}
    (same : caseOf corners level = caseAt below p)
    (filled : crossedAt below p ≠ []) :
    Surface.meanCrossing corners level =
      Option.some (meanOf ((crossedAt below p).map
        (clampedCrossing corners level))) := by
  unfold Surface.meanCrossing
  simp only
  rw [same, if_neg (crossingMask_ne_zero filled), filter_crossingMask, meanOf,
    List.foldl_map, List.length_map]
  rfl

/-- Smoothing puts a vertex at the mean of the crossings in its point's cell,
if there are any. -/
theorem Field.smoothed_eq (field : Field) {d : Density} {level : Float32}
    {p : Point} {corners : Corners} (read : d.corners p = .ok corners)
    (same : caseOf corners level = caseAt (d.below level) p)
    (filled : crossedAt (d.below level) p ≠ []) :
    field.smoothed d level p =
      (p.toVec3 + meanOf ((crossedAt (d.below level) p).map
        (clampedCrossing corners level))).scale field.size := by
  rw [smoothed, read]
  simp only [meanCrossing_eq same filled, Option.elim_some]

/-- The corners of the cell above a point of the region can be read, and their
case is that of the sides of the level. -/
theorem Density.corners_above {d : Density} {cells : Nat}
    (same : d.lattice = ⟨cells, .gradient⟩) {p : Point}
    (stored : Lattice.Contains ⟨cells, .none⟩ p) (level : Float32) :
    ∃ corners, d.corners p = .ok corners ∧
      caseOf corners level = caseAt (d.below level) p := by
  refine corners_of_contains (fun c => ?_) level
  refine d.lattice.contains_above (by rw [same]) ?_ c
  rwa [same]

/-! ## Moving one vertex after the other -/

/-- Moves the vertex of a point. Vertices are numbered in the order of their
points. -/
def Field.moveTo (field : Field) (points : List Point) (place : Point → Vec3)
    (b : Buffers) (p : Point) : Except Fault Buffers := do
  let normal ← field.normal (place p)
  return b.moveVertex (.ofNat (points.idxOf p)) (place p) normal

namespace Surface

variable {field : Field} {cells : Nat} {room : Capacity} {place : Point → Vec3}
  {points : List Point} {ts : List (Point × Point × Point)} {s : Surface}

/-- A point with a vertex knows its number. -/
theorem Holds.owned_of_mem (holds : s.Holds field cells room place points ts)
    {p : Point} (member : p ∈ points) :
    s.owned[s.lattice.index p]?.join = some (.ofNat (points.idxOf p)) := by
  have inside := List.idxOf_lt_length_of_mem member
  refine (holds.owned p (holds.stored p member) _).mpr ?_
  rw [UInt32.toNat_ofNat_of_lt' (Nat.lt_trans inside holds.few)]
  exact List.getElem?_idxOf member

/-- A point without a vertex knows no number. -/
theorem Holds.owned_of_not_mem (holds : s.Holds field cells room place points ts)
    {p : Point} (stored : s.lattice.Contains p) (absent : p ∉ points) :
    s.owned[s.lattice.index p]?.join = none := by
  cases owner : s.owned[s.lattice.index p]?.join with
  | none => rfl
  | some i =>
    have found := (holds.owned p stored i).mp owner
    exact absurd (List.mem_of_getElem? found) absent

/-- At a point, smoothing moves the vertex if there is one. -/
theorem Holds.smoothPoint_eq (holds : s.Holds field cells room place points ts)
    {d : Density} (same : d.lattice = ⟨cells, .gradient⟩) {level : Float32}
    (crossed : ∀ p ∈ points, crossedAt (d.below level) p ≠ [])
    {slot : Nat} (inside : slot < s.lattice.volume) (b : Buffers) :
    smoothPoint field d level { s with buffers := b } slot =
      (if s.lattice.point slot ∈ points then
        field.moveTo points (field.smoothed d level) b (s.lattice.point slot)
      else .ok b).map ({ s with buffers := · }) := by
  let p := s.lattice.point slot
  have stored : s.lattice.Contains p := Lattice.contains_point inside
  obtain ⟨corners, read, case_eq⟩ :=
    d.corners_above same (holds.lattice ▸ stored) level
  have slot_eq : s.lattice.index p = slot := s.lattice.index_point slot
  rw [smoothPoint, ← slot_eq, Lattice.point_index stored, read]
  simp only [bind, Except.bind]
  by_cases member : p ∈ points
  · have filled := crossed p member
    rw [if_pos member, Field.moveTo, field.smoothed_eq read case_eq filled,
      meanCrossing_eq case_eq filled, holds.owned_of_mem member]
    simp only [bind, Except.bind]
    cases field.normal _ with
    | error fault => rfl
    | ok normal => rfl
  · rw [if_neg member, holds.owned_of_not_mem stored member]
    cases meanCrossing corners level with
    | none => rfl
    | some mean => rfl

/-- Smoothing moves the vertices of the points that have one, in the order of
the lattice, and does nothing else. -/
theorem Holds.smooth_eq (holds : s.Holds field cells room place points ts)
    {d : Density} (same : d.lattice = ⟨cells, .gradient⟩) {level : Float32}
    (crossed : ∀ p ∈ points, crossedAt (d.below level) p ≠ []) :
    s.smooth field d level =
      (((Lattice.points ⟨cells, .none⟩).filter (· ∈ points)).foldlM
        (field.moveTo points (field.smoothed d level)) s.buffers).map
          ({ s with buffers := · }) := by
  have each : ∀ slots : List Nat, (∀ slot ∈ slots, slot < s.lattice.volume) →
      ∀ b, slots.foldlM (smoothPoint field d level) { s with buffers := b } =
        (((slots.map s.lattice.point).filter (· ∈ points)).foldlM
          (field.moveTo points (field.smoothed d level)) b).map
            ({ s with buffers := · }) := by
    intro slots inside
    induction slots with
    | nil => exact fun b => rfl
    | cons slot rest ih =>
      intro b
      have later := ih fun k member => inside k (List.mem_cons_of_mem slot member)
      rw [List.foldlM_cons, List.map_cons, List.filter_cons,
        holds.smoothPoint_eq same crossed (inside slot List.mem_cons_self)]
      by_cases member : s.lattice.point slot ∈ points
      · rw [if_pos member, if_pos (decide_eq_true member), List.foldlM_cons]
        cases field.moveTo points (field.smoothed d level) b
            (s.lattice.point slot) with
        | error fault => rfl
        | ok moved => exact later moved
      · rw [if_neg member, if_neg (by rwa [decide_eq_true_iff])]
        exact later b
  rw [← holds.lattice]
  exact each _ (fun slot => List.mem_range.mp) s.buffers

end Surface

/-! ## What is left as it is -/

/-- Vertices are rewritten, and nothing else changes. -/
structure Buffers.Moves (b b' : Buffers) : Prop where
  indices : b'.indices = b.indices
  indexCount : b'.indexCount = b.indexCount
  vertexCount : b'.vertexCount = b.vertexCount
  positions : b'.positions.toList.drop b.vertexCount =
    b.positions.toList.drop b.vertexCount
  normals : b'.normals.toList.drop b.vertexCount =
    b.normals.toList.drop b.vertexCount

/-- Only the vertex of the point is moved. -/
theorem Field.ends_moveTo (field : Field) {points : List Point}
    (few : points.length < UInt32.size) (place : Point → Vec3) {b b' : Buffers}
    (count : b.vertexCount = points.length) (moves : b.Moves b') {p : Point}
    (member : p ∈ points) :
    Ends b.Moves (fun _ => True) (field.moveTo points place b' p) := by
  have inside := List.idxOf_lt_length_of_mem member
  have before : (UInt32.ofNat (points.idxOf p)).toNat < b.vertexCount := by
    rwa [UInt32.toNat_ofNat_of_lt' (Nat.lt_trans inside few), count]
  rw [moveTo]
  cases field.normal (place p) with
  | error fault => trivial
  | ok normal =>
    refine ⟨moves.indices, moves.indexCount, moves.vertexCount, ?_, ?_⟩
    · rw [Buffers.moveVertex, Array.toList_setIfInBounds, drop_set_of_lt before]
      exact moves.positions
    · rw [Buffers.moveVertex, Array.toList_setIfInBounds, drop_set_of_lt before]
      exact moves.normals

/-- Moving vertices one after the other leaves all else as it is. -/
theorem Field.ends_moves (field : Field) {points : List Point}
    (few : points.length < UInt32.size) (place : Point → Vec3) {b : Buffers}
    (count : b.vertexCount = points.length) {moved : List Point}
    (members : moved ⊆ points) :
    Ends b.Moves (fun _ => True)
      (moved.foldlM (field.moveTo points place) b) := by
  let before (rest : List Point) (b' : Buffers) : Prop :=
    rest ⊆ points ∧ b.Moves b'
  have each (p : Point) (rest : List Point) (b' : Buffers)
      (held : before (p :: rest) b') :
      Ends (before rest) (fun _ => True) (field.moveTo points place b' p) := by
    obtain ⟨members, moves⟩ := held
    obtain ⟨member, members⟩ := List.cons_subset.mp members
    exact (field.ends_moveTo few place count moves member).mono
      fun b'' moves => ⟨members, moves⟩
  have start : before moved b := ⟨members, rfl, rfl, rfl, rfl, rfl⟩
  exact (Ends.foldlM each start).mono fun b' held => held.2

/-! ## The region -/

section

variable {d : Density} (program : Program) (r : Request) {b : Buffers}

/-- The points with a vertex, in the order of the lattice. -/
def movedPoints (cells : Nat) (below : Point → Bool) : List Point :=
  (Lattice.points ⟨cells, .none⟩).filter (· ∈ vertexPoints cells below)

/-- Points with a vertex are points of the region. -/
theorem contains_of_mem_vertexPoints {cells : Nat} {below : Point → Bool}
    {p : Point} (member : p ∈ vertexPoints cells below) :
    Lattice.Contains ⟨cells, .none⟩ p := by
  obtain ⟨e, crossed, a, same⟩ := mem_vertexPoints.mp member
  exact contains_anchor (mem_crossedEdges.mp crossed).1
    (LatticeEdge.mem_anchorList.mpr ⟨a, same⟩)

theorem Lattice.nodup_points (l : Lattice) : l.points.Nodup := by
  refine List.nodup_range.map fun i j same => ?_
  rw [← l.index_point i, same, l.index_point]

/-- The points with a vertex, each once, but not in the order of the
vertices. -/
theorem movedPoints_perm (cells : Nat) (below : Point → Bool) :
    (movedPoints cells below).Perm (vertexPoints cells below) := by
  refine (List.perm_ext_iff_of_nodup ((Lattice.nodup_points _).filter _)
    (nodup_firstNamed _)).mpr fun p => ?_
  rw [List.mem_filter, decide_eq_true_iff]
  refine and_iff_right_of_imp fun member => ?_
  have stored := contains_of_mem_vertexPoints member
  exact List.mem_map.mpr ⟨_, List.mem_range.mpr (Lattice.index_lt_volume stored),
    Lattice.point_index stored⟩

/-- Buffers that get a surface get all its vertices and triangles. -/
theorem exists_holds_of_ok (gradient : d.lattice.padding = .gradient)
    {out : Buffers} (made : dualContouring d program r b = .ok out) :
    ∃ s : Surface, s.buffers = out ∧
      s.Holds (d.field program r) d.lattice.cells b.capacity
        (d.place program r) (vertexPoints d.lattice.cells (d.below r.level))
        (quadSurface d.lattice.cells (d.below r.level)) := by
  have room : b.capacity.holds
      (Algorithm.dualContouring.capacity d.lattice.cells) = true := by
    by_contra small
    simp only [dualContouring, gradient, checkCapacity, if_neg small] at made
    cases made
  have ends := dualContouring_ends program r gradient room
  rw [made] at ends
  exact ends

/-- With room enough, all that is done is the walk, and smoothing if it is
asked for. -/
theorem dualContouring_eq (gradient : d.lattice.padding = .gradient)
    (room : b.capacity.holds
      (Algorithm.dualContouring.capacity d.lattice.cells) = true) (smooth : Bool) :
    let field := d.field program r
    dualContouring d program { r with smooth } b =
      ((walk d.lattice.cells (Surface.addPoint field d r.level)
          (.blank d.lattice.cells b.capacity) >>= fun s =>
        if smooth then s.smooth field d r.level
        else .ok s).mapError MeshError.fault).map Surface.buffers := by
  intro field
  simp only [dualContouring, gradient, checkCapacity, if_pos room]
  rfl

/-- A run with smoothing is one without, after which vertices are moved. -/
theorem dualContouring_smooth_eq (gradient : d.lattice.padding = .gradient) :
    let below := d.below r.level
    let points := vertexPoints d.lattice.cells below
    let field := d.field program r
    dualContouring d program { r with smooth := true } b =
      dualContouring d program { r with smooth := false } b >>= fun still =>
        ((movedPoints d.lattice.cells below).foldlM
          (field.moveTo points (field.smoothed d r.level)) still).mapError
            .fault := by
  intro below points field
  by_cases room : b.capacity.holds
      (Algorithm.dualContouring.capacity d.lattice.cells) = true
  · have walked := ends_walk field d r.level room
    have same : d.lattice = ⟨d.lattice.cells, .gradient⟩ := by rw [← gradient]
    rw [dualContouring_eq program r gradient room,
      dualContouring_eq program r gradient room]
    cases made : walk d.lattice.cells (Surface.addPoint field d r.level)
        (.blank d.lattice.cells b.capacity) with
    | error fault => rfl
    | ok s =>
      rw [made] at walked
      have smoothed := Surface.Holds.smooth_eq walked same
        fun p member => crossedAt_ne_nil member
      let moves : Except Fault Buffers :=
        (movedPoints d.lattice.cells below).foldlM
          (field.moveTo points (field.smoothed d r.level)) s.buffers
      show ((s.smooth field d r.level).mapError MeshError.fault).map
        Surface.buffers = moves.mapError MeshError.fault
      rw [show s.smooth field d r.level = moves.map _ from smoothed]
      cases moves with
      | error fault => rfl
      | ok moved => rfl
  · simp only [dualContouring, gradient, checkCapacity, if_neg room]
    rfl

/-- **Smoothing moves every vertex once, and nothing else.** Whatever the
densities are, a run with smoothing ends like one without, after which the
vertices of the lattice points that have one are moved, each once. None of
these points is passed over: the corners of its cell can be read, some edges
of the cell are crossed, and the vertex goes to the mean of the crossings on
just these, held inside the cell, with a new normal there. So the triangles,
the number of vertices and the points that they belong to are the same. -/
theorem dualContouring_smooth (gradient : d.lattice.padding = .gradient) :
    let cells := d.lattice.cells
    let below := d.below r.level
    let points := vertexPoints cells below
    let field := d.field program r
    let place := field.smoothed d r.level
    let plain := dualContouring d program { r with smooth := false } b
    let smooth := dualContouring d program { r with smooth := true } b
    (smooth = plain >>= fun still =>
      ((movedPoints cells below).foldlM (field.moveTo points place) still).mapError
        .fault) ∧
    (movedPoints cells below).Perm points ∧
    points.Nodup ∧
    (∀ p ∈ points,
      let crossed := crossedAt below p
      crossed ≠ [] ∧ ∃ corners, d.corners p = .ok corners ∧
        crossingMask (caseOf corners r.level) ≠ 0 ∧
        place p =
          (p.toVec3 + meanOf (crossed.map (clampedCrossing corners r.level))).scale
            (cellSize r.scale cells)) ∧
    ∀ out, smooth = .ok out → ∃ still, plain = .ok still ∧ still.Moves out ∧
      still.vertexCount = points.length ∧
      still.writtenPositions = points.map field.middle ∧
      out.writtenPositions = points.map place ∧
      out.writtenNormals.map .ok = points.map fun p => field.normal (place p) := by
  intro cells below points field place plain smooth
  have equal : smooth = plain >>= _ := dualContouring_smooth_eq program r gradient
  have same : d.lattice = ⟨cells, .gradient⟩ := by rw [← gradient]
  refine ⟨equal, movedPoints_perm cells below, nodup_firstNamed _, ?_, ?_⟩
  · intro p member
    have filled := crossedAt_ne_nil member
    obtain ⟨corners, read, case_eq⟩ :=
      d.corners_above same (contains_of_mem_vertexPoints member) r.level
    refine ⟨filled, corners, read, ?_, field.smoothed_eq read case_eq filled⟩
    rw [case_eq]
    exact crossingMask_ne_zero filled
  · intro out made
    obtain ⟨t, rfl, after⟩ :=
      exists_holds_of_ok program { r with smooth := true } gradient made
    rw [equal] at made
    cases first : plain with
    | error e =>
      rw [first] at made
      cases made
    | ok still =>
      obtain ⟨s, rfl, before⟩ :=
        exists_holds_of_ok program { r with smooth := false } gradient first
      have moves := field.ends_moves before.few place before.vertexCount
        (movedPoints_perm cells below).subset
      refine ⟨s.buffers, rfl, ?_, before.vertexCount, before.positions,
        after.positions, after.normals⟩
      rw [first] at made
      have made : Except.mapError MeshError.fault _ = .ok t.buffers := made
      cases moved : (movedPoints cells below).foldlM
          (field.moveTo points place) s.buffers with
      | error fault =>
        rw [moved] at made
        cases made
      | ok out =>
        rw [moved] at made moves
        obtain rfl : out = t.buffers := Except.ok.inj made
        exact moves

end

/-- The middle point lies in the corner of eight cells, and in each of them
three edges join it to its neighbours. -/
theorem dualContouring_smooth_onePoint :
    ∃ still out,
      dualContouring onePoint (.constant .zero) { smooth := false }
        (.blank (Algorithm.dualContouring.capacity 2)) = .ok still ∧
      dualContouring onePoint (.constant .zero) { smooth := true }
        (.blank (Algorithm.dualContouring.capacity 2)) = .ok out ∧
      out.indices = still.indices ∧
      (movedPoints 2 (onePoint.below 0.0)).length = 8 ∧
      crossedAt (onePoint.below 0.0) ⟨1, 1, 1⟩ = [0, 3, 8] := by
  have quads := dualContouring_quads (.constant .zero) { smooth := true }
    (d := onePoint) rfl onePoint_room
  have smoothing := dualContouring_smooth (.constant .zero) {}
    (b := .blank (Algorithm.dualContouring.capacity 2)) (d := onePoint) rfl
  obtain ⟨-, perm, -, -, kept⟩ := smoothing
  cases made : dualContouring onePoint (.constant .zero) { smooth := true }
      (.blank (Algorithm.dualContouring.capacity 2)) with
  | error e =>
    rw [made] at quads
    obtain ⟨⟨fault, -, hindrance⟩, -⟩ := quads
    exact absurd hindrance (not_hindrance_constant (by decide))
  | ok out =>
    obtain ⟨still, plain, moves, -⟩ := kept out made
    have eight : (vertexPoints 2 (onePoint.below 0.0)).length = 8 := by
      decide +kernel
    exact ⟨still, out, plain, rfl, moves.indices, perm.length_eq.trans eight,
      by decide +kernel⟩

end FieldMesh.Mesh
