import FieldMesh.Proofs.Mesh.Classification
import FieldMesh.Proofs.Mesh.Quads
import FieldMesh.Proofs.Mesh.VertexSharing

/-!
# Dual contouring, run

A walk over the cells of a region writes the quads around the crossed edges.
Smoothing then moves vertices and leaves the triangles as they are.

* `QuadCase.ofCode_binary`, `quadCaseAt_eq`: the quads of a code and of a cell,
  by what is below the level;
* `addPoint_eq`: what is done at a cell is one step for each crossed edge;
* `Surface.Holds.ends_addEdge`, `ends_addEdges`: what these steps write;
* `Surface.Holds.ends_smooth`: where smoothing puts the vertices;
* `dualContouring_ends`: what is written for a region.
-/

namespace FieldMesh.Mesh

/-! ## Codes -/

/-- The quad of a cell around the edge along an axis at its far corner. -/
def Quad.around : Axis → Quad
  | .x => .acrossX
  | .y => .acrossY
  | .z => .acrossZ

/-- The far edges that get a quad have their other end on the other side of
the level. -/
theorem QuadCase.ofCode_binary (z y x far : Bool) :
    QuadCase.ofCode (binary [z, y, x, far]) =
      ⟨(([(Axis.z, z), (.y, y), (.x, x)].filter (·.2 != far)).map
        (Quad.around ·.1)), far⟩ := by
  revert z y x far
  decide

/-- The code of a cell of the region. -/
theorem quadCode_eq {d : Density} {cell : Point}
    (isCell : cell.IsCell d.lattice.cells) (level : Float32) :
    quadCode d cell level =
      .ok (binary (farCorners.map fun c => d.below level (cell + c.offset))) := by
  choose value read below using fun c : Corner =>
    d.value_eq (Lattice.contains_corner isCell c) level
  have values : (fun c : Corner => d.value (cell + c.offset)) =
      fun c => pure (value c) := funext read
  rw [quadCode, values, List.mapM_pure]
  simp only [below]
  rfl

/-! ## Edges -/

/-- Writes the quad around an edge. -/
def Surface.addEdge (field : Field) (below : Point → Bool) (s : Surface)
    (e : LatticeEdge) : Except Fault Surface :=
  s.addQuad field e.anchors.1 (below (e.base + e.axis.unit)) (.around e.axis)

/-- The quads of a cell, by which of its far corners are below the level. -/
def quadCaseAt (below : Point → Bool) (cell : Point) : QuadCase :=
  .ofCode (binary (farCorners.map fun c => below (cell + c.offset)))

/-- The axes along which the far edges of a cell get a quad. -/
def crossedAxes (below : Point → Bool) (cell : Point) : List Axis :=
  [.z, .y, .x].filter (LatticeEdge.crossed below ∘ farEdge cell)

/-- The far edges of a cell end at its far corner. -/
theorem upper_farEdge (cell : Point) (axis : Axis) :
    (farEdge cell axis).base + axis.unit = cell + Corner.offset 6 := by
  cases axis <;> exact Point.add_assoc _ _ _

/-- The quads of the far edges of a cell start at the cell. -/
theorem anchor_farEdge (cell : Point) (axis : Axis) :
    (farEdge cell axis).anchors.1 = cell := by
  ext <;> simp [LatticeEdge.anchors, farEdge] <;> omega

/-- The quads of a cell are those around its crossed far edges, turned by the
far corner. -/
theorem quadCaseAt_eq (below : Point → Bool) (cell : Point) :
    quadCaseAt below cell =
      ⟨(crossedAxes below cell).map .around, below (cell + Corner.offset 6)⟩ := by
  let far := below (cell + Corner.offset 6)
  let lower (axis : Axis) : Bool := below (farEdge cell axis).base
  have code : farCorners.map (fun c => below (cell + c.offset)) =
      [lower .z, lower .y, lower .x, far] := rfl
  have others : [(Axis.z, lower .z), (.y, lower .y), (.x, lower .x)] =
      [.z, .y, .x].map fun axis => (axis, lower axis) := rfl
  have kept : LatticeEdge.crossed below ∘ farEdge cell =
      fun axis => lower axis != far := by
    refine funext fun axis => ?_
    exact congrArg (lower axis != below ·) (upper_farEdge cell axis)
  rw [quadCaseAt, code, QuadCase.ofCode_binary, others, List.filter_map,
    List.map_map, crossedAxes, kept]
  rfl

/-- At a cell, the quads around its crossed far edges are written. -/
theorem addPoint_eq {field : Field} {d : Density} {cell : Point}
    (isCell : cell.IsCell d.lattice.cells) (level : Float32) (s : Surface) :
    s.addPoint field d level cell =
      (([.z, .y, .x].map (farEdge cell)).filter
        (LatticeEdge.crossed (d.below level))).foldlM
          (Surface.addEdge field (d.below level)) s := by
  let below := d.below level
  have written : s.addPoint field d level cell =
      (quadCaseAt below cell).quads.foldlM
        (Surface.addQuad field cell (quadCaseAt below cell).flipped) s := by
    rw [Surface.addPoint, quadCode_eq isCell]
    rfl
  have steps : (fun (s : Surface) axis =>
      s.addEdge field below (farEdge cell axis)) =
        fun s axis => s.addQuad field cell (below (cell + Corner.offset 6))
          (.around axis) := by
    refine funext₂ fun s axis => ?_
    rw [Surface.addEdge, anchor_farEdge]
    exact congrArg (s.addQuad field cell · _)
      (congrArg below (upper_farEdge cell axis))
  rw [written, quadCaseAt_eq, List.foldlM_map, List.filter_map,
    List.foldlM_map, steps]
  rfl

/-- The corners of a quad are points of the region. -/
theorem contains_anchor {cells : Nat} {e : LatticeEdge} (inside : e.Inside cells)
    {p : Point} (member : p ∈ e.anchorList) :
    Lattice.Contains ⟨cells, .none⟩ p := by
  obtain ⟨base, axis⟩ := e
  simp only [LatticeEdge.anchorList, LatticeEdge.anchors, List.mem_cons,
    List.not_mem_nil, or_false] at member
  cases axis <;>
  · simp only [LatticeEdge.Inside, Axis.across, Point.along] at inside
    rcases member with rfl | rfl | rfl | rfl <;>
    · simp only [Lattice.Contains, Lattice.Within, Lattice.border,
        Padding.border, Axis.across, Axis.unit, Point.sub_x, Point.sub_y,
        Point.sub_z]
      omega

/-- The corners of the quad around an edge, from the cell that writes it. -/
theorem corners_around (e : LatticeEdge) :
    e.anchors.1 + (Quad.around e.axis).a.offset = e.anchors.1 ∧
      e.anchors.1 + (Quad.around e.axis).b.offset = e.anchors.2.1 ∧
      e.anchors.1 + (Quad.around e.axis).c.offset = e.anchors.2.2.1 ∧
      e.anchors.1 + (Quad.around e.axis).d.offset = e.anchors.2.2.2 := by
  have offsets : ∀ axis ∈ Axis.all,
      (Quad.around axis).a.offset = .origin ∧
      (Quad.around axis).b.offset = axis.across.1.unit ∧
      (Quad.around axis).c.offset = axis.across.1.unit + axis.across.2.unit ∧
      (Quad.around axis).d.offset = axis.across.2.unit := by
    decide
  obtain ⟨a, b, c, d⟩ := offsets e.axis e.axis.mem_all
  rw [a, b, c, d]
  refine ⟨Point.add_origin _, ?_, ?_, ?_⟩
  all_goals
    ext <;> simp [LatticeEdge.anchors] <;> omega

namespace Surface

variable {field : Field} {cells : Nat} {room : Capacity}
  {points : List Point} {ts : List (Point × Point × Point)} {s : Surface}

/-- An edge has its quad written, with the vertices of its corners. -/
theorem Holds.ends_addEdge
    (holds : s.Holds field cells room field.middle points ts)
    (vertices : Lattice.volume ⟨cells, .none⟩ ≤ room.vertices)
    (indices : 3 * (ts.length + 2) ≤ room.indices) (below : Point → Bool)
    {e : LatticeEdge} (inside : e.Inside cells) :
    Ends (fun s' => s'.Holds field cells room field.middle
        (e.anchorList.foldl note points) (ts ++ edgeTriangles below e))
      (Hindrance field cells) (s.addEdge field below e) := by
  obtain ⟨a, b, c, d⟩ := corners_around e
  have stored : ∀ p ∈ e.anchorList, Lattice.Contains ⟨cells, .none⟩ p :=
    fun p => contains_anchor inside
  simp only [LatticeEdge.anchorList, List.forall_mem_cons] at stored
  obtain ⟨storedA, storedB, storedC, storedD, -⟩ := stored
  unfold addEdge addQuad
  rw [a, b, c, d]
  refine (holds.ends_vertexOf vertices storedA).bind ?_
  rintro ⟨i, s₁⟩ ⟨nameA, holds₁⟩
  refine (holds₁.ends_vertexOf vertices storedB).bind ?_
  rintro ⟨j, s₂⟩ ⟨nameB, holds₂⟩
  refine (holds₂.ends_vertexOf vertices storedC).bind ?_
  rintro ⟨k, s₃⟩ ⟨nameC, holds₃⟩
  refine (holds₃.ends_vertexOf vertices storedD).bind ?_
  rintro ⟨l, s₄⟩ ⟨nameD, holds₄⟩
  -- later vertices leave the numbers of earlier ones as they are
  have nameC := getElem?_foldl_note [e.anchors.2.2.2] nameC
  have nameB := getElem?_foldl_note [e.anchors.2.2.1, e.anchors.2.2.2] nameB
  have nameA := getElem?_foldl_note
    [e.anchors.2.1, e.anchors.2.2.1, e.anchors.2.2.2] nameA
  let flipped := below (e.base + e.axis.unit)
  have names : List.Forall₂ (Names (e.anchorList.foldl note points))
      (quadTriangles flipped i j k l) (edgeTriangles below e) := by
    show List.Forall₂ _ _ (quadTriangles flipped _ _ _ _)
    cases flipped
    · exact .cons ⟨nameA, nameC, nameB⟩ (.cons ⟨nameA, nameD, nameC⟩ .nil)
    · exact .cons ⟨nameA, nameB, nameC⟩ (.cons ⟨nameA, nameC, nameD⟩ .nil)
  have two : (edgeTriangles below e).length = 2 := length_edgeTriangles below e
  obtain ⟨buffers, done, whole⟩ := holds₄.addTriangles names (by rwa [two])
  show Ends _ _ (_ >>= _)
  rw [done]
  exact whole

/-- Edges have their quads written one after the other. -/
theorem Holds.ends_addEdges
    (holds : s.Holds field cells room field.middle points ts)
    (vertices : Lattice.volume ⟨cells, .none⟩ ≤ room.vertices)
    (below : Point → Bool) {edges : List LatticeEdge}
    (indices : 3 * (ts.length + 2 * edges.length) ≤ room.indices)
    (inside : ∀ e ∈ edges, e.Inside cells) :
    Ends (fun s' => s'.Holds field cells room field.middle
        ((edges.flatMap LatticeEdge.anchorList).foldl note points)
        (ts ++ edges.flatMap (edgeTriangles below)))
      (Hindrance field cells) (edges.foldlM (addEdge field below) s) := by
  induction edges generalizing s points ts with
  | nil =>
    show s.Holds field cells room field.middle points (ts ++ [])
    rwa [List.append_nil]
  | cons e rest ih =>
    rw [List.length_cons] at indices
    rw [List.foldlM_cons, List.flatMap_cons, List.foldl_append,
      List.flatMap_cons, ← List.append_assoc]
    refine (holds.ends_addEdge vertices (by omega) below
      (inside e List.mem_cons_self)).bind fun s' next => ?_
    refine ih next ?_ fun e' member => inside e' (List.mem_cons_of_mem e member)
    rw [List.length_append, length_edgeTriangles]
    omega

end Surface

/-! ## Smoothing -/

/-- Where smoothing puts a vertex. -/
def Field.smoothed (field : Field) (d : Density) (level : Float32) (p : Point) :
    Vec3 :=
  match d.corners p with
  | .ok corners =>
    (Surface.meanCrossing corners level).elim (field.middle p)
      fun mean => (p.toVec3 + mean).scale field.size
  | .error _ => field.middle p

/-- The corners of the cell above a point of the region are stored, if there is
a border. -/
theorem Lattice.contains_above {l : Lattice} (gradient : l.padding = .gradient)
    {p : Point} (stored : Lattice.Contains ⟨l.cells, .none⟩ p) (c : Corner) :
    l.Contains (p + c.offset) := by
  obtain ⟨⟨hx, hx'⟩, ⟨hy, hy'⟩, ⟨hz, hz'⟩⟩ := stored
  obtain ⟨⟨ux, ux'⟩, ⟨uy, uy'⟩, ⟨uz, uz'⟩⟩ := c.offset_bounds
  simp only [Lattice.border, Padding.border] at hx hx' hy hy' hz hz'
  refine ⟨⟨?_, ?_⟩, ⟨?_, ?_⟩, ⟨?_, ?_⟩⟩ <;>
    simp only [Lattice.border, gradient, Padding.border, Point.add_x,
      Point.add_y, Point.add_z] <;> omega

/-- The corners of the cell above a point of the region can be read, if there
is a border. -/
theorem Density.corners_ok {d : Density} (gradient : d.lattice.padding = .gradient)
    {p : Point} (stored : Lattice.Contains ⟨d.lattice.cells, .none⟩ p) :
    ∃ corners, d.corners p = .ok corners := by
  obtain ⟨corners, read, -⟩ :=
    Density.corners_of_contains (d.lattice.contains_above gradient stored) 0.0
  exact ⟨corners, read⟩

namespace Surface

variable {field : Field} {cells : Nat} {room : Capacity} {place : Point → Vec3}
  {points : List Point} {ts : List (Point × Point × Point)} {s : Surface}

/-- The vertex of a point is moved, if it has one. -/
theorem Holds.ends_smoothPoint (holds : s.Holds field cells room place points ts)
    {d : Density} {p : Point} (stored : s.lattice.Contains p)
    {corners : Corners} (read : d.corners p = .ok corners) (level : Float32)
    (unmoved : place p = field.middle p) :
    Ends (fun s' => s'.Holds field cells room
        (Function.update place p (field.smoothed d level p)) points ts)
      (Hindrance field cells)
      (s.smoothPoint field d level (s.lattice.index p)) := by
  have smoothed : field.smoothed d level p =
      (meanCrossing corners level).elim (field.middle p)
        fun mean => (p.toVec3 + mean).scale field.size := by
    rw [Field.smoothed, read]
  rw [smoothPoint, Lattice.point_index stored, read, smoothed]
  simp only [bind, Except.bind]
  cases meanCrossing corners level with
  | none =>
    rw [Option.elim_none, ← unmoved, Function.update_eq_self]
    exact holds
  | some mean =>
    cases owner : s.owned[s.lattice.index p]?.join with
    | none =>
      -- a point without a vertex may be placed anywhere
      have absent := holds.not_mem stored owner
      refine holds.of_place fun q member => ?_
      rw [Function.update_of_ne]
      exact fun same => absent (same ▸ member)
    | some i =>
      have found := (holds.owned p stored i).mp owner
      rw [Option.elim_some]
      simp only
      cases normal_eq : field.normal ((p.toVec3 + mean).scale field.size) with
      | error fault => exact .normal _ normal_eq
      | ok normal => exact holds.moveVertex found normal_eq

/-- All vertices are moved, and nothing else is done. -/
theorem Holds.ends_smooth
    (holds : s.Holds field cells room field.middle points ts) {d : Density}
    (same : d.lattice = ⟨cells, .gradient⟩) (level : Float32) :
    Ends (fun s' => s'.Holds field cells room (field.smoothed d level) points ts)
      (Hindrance field cells) (s.smooth field d level) := by
  let l : Lattice := ⟨cells, .none⟩
  -- the points of the slots that are left still have their first places
  let place (rest : List Nat) (p : Point) : Vec3 :=
    if l.index p ∈ rest then field.middle p else field.smoothed d level p
  let before (rest : List Nat) (s : Surface) : Prop :=
    rest.Nodup ∧ (∀ slot ∈ rest, slot < l.volume) ∧
      s.Holds field cells room (place rest) points ts
  have each (slot : Nat) (rest : List Nat) (s : Surface)
      (held : before (slot :: rest) s) :
      Ends (before rest) (Hindrance field cells)
        (s.smoothPoint field d level slot) := by
    obtain ⟨nodup, inside, holds⟩ := held
    obtain ⟨last, nodup⟩ := List.nodup_cons.mp nodup
    have stored := Lattice.contains_point (inside slot List.mem_cons_self)
    have slot_eq : Lattice.index ⟨cells, .none⟩ (l.point slot) = slot :=
      l.index_point slot
    obtain ⟨corners, read⟩ := d.corners_ok (p := l.point slot)
      (congrArg Lattice.padding same) (by rwa [same])
    have moved := holds.ends_smoothPoint (p := l.point slot)
      (holds.lattice ▸ stored) read level
      (if_pos (List.mem_cons.mpr (.inl slot_eq)))
    rw [holds.lattice, slot_eq] at moved
    refine moved.mono fun s' holds' => ⟨nodup, ?_, ?_⟩
    · exact fun k member => inside k (List.mem_cons_of_mem slot member)
    · refine holds'.of_place fun q member => ?_
      by_cases at_slot : q = l.point slot
      · subst at_slot
        rw [Function.update_self]
        exact (if_neg (by rwa [slot_eq])).symm
      · have stored' := holds.stored q member
        rw [holds.lattice] at stored'
        have apart : l.index q ≠ slot := by
          rintro rfl
          exact at_slot (Lattice.point_index stored').symm
        rw [Function.update_of_ne at_slot]
        simp only [place, List.mem_cons, apart, false_or]
  have start : before (List.range l.volume) s := by
    refine ⟨List.nodup_range, fun slot member => List.mem_range.mp member, ?_⟩
    refine holds.of_place fun p member => ?_
    have stored := holds.stored p member
    rw [holds.lattice] at stored
    exact (if_pos (List.mem_range.mpr (Lattice.index_lt_volume stored))).symm
  rw [smooth, holds.lattice]
  refine (Ends.foldlM each start).mono fun s' held => ?_
  exact held.2.2.of_place fun p _ => if_neg List.not_mem_nil

end Surface

/-! ## The region -/

/-- What the vertices of a region depend on. -/
def Density.field (d : Density) (program : Program) (r : Request) : Field :=
  ⟨program, r.origin, cellSize r.scale d.lattice.cells, r.epsilon⟩

/-- Where the vertex of a point is put in the end. -/
def Density.place (d : Density) (program : Program) (r : Request) :
    Point → Vec3 :=
  if r.smooth then (d.field program r).smoothed d r.level
  else (d.field program r).middle

/-- The points that have vertices, in the order of these. -/
def vertexPoints (cells : Nat) (below : Point → Bool) : List Point :=
  firstNamed ((crossedEdges cells below).flatMap LatticeEdge.anchorList)

theorem mem_vertexPoints {cells : Nat} {below : Point → Bool} {p : Point} :
    p ∈ vertexPoints cells below ↔
      ∃ e ∈ crossedEdges cells below, ∃ a : Edge, a.inCell p = e := by
  rw [vertexPoints, mem_firstNamed, List.mem_flatMap]
  simp only [LatticeEdge.mem_anchorList]

theorem length_crossedEdges (cells : Nat) (below : Point → Bool) :
    (crossedEdges cells below).length ≤ 3 * (cells * cells * cells) := by
  rw [← length_cellPoints]
  exact length_flatMap_le fun cell _ => List.length_filter_le _ _

/-- The walk writes the quads around all crossed edges. -/
theorem ends_walk (field : Field) (d : Density) (level : Float32) {room : Capacity}
    (enough : room.holds
      (Algorithm.dualContouring.capacity d.lattice.cells) = true) :
    Ends (fun s => s.Holds field d.lattice.cells room field.middle
        (vertexPoints d.lattice.cells (d.below level))
        (quadSurface d.lattice.cells (d.below level)))
      (Hindrance field d.lattice.cells)
      (walk d.lattice.cells (Surface.addPoint field d level)
        (.blank d.lattice.cells room)) := by
  obtain ⟨vertices, indices⟩ := Capacity.holds_iff.mp enough
  simp only [Algorithm.capacity] at vertices indices
  have short := length_crossedEdges d.lattice.cells (d.below level)
  have longer : d.lattice.cells ≤ Lattice.side ⟨d.lattice.cells, .none⟩ := by
    show d.lattice.cells ≤ d.lattice.cells + 1 + 2 * 0
    omega
  have volume : d.lattice.cells * d.lattice.cells * d.lattice.cells ≤
      Lattice.volume ⟨d.lattice.cells, .none⟩ :=
    Nat.mul_le_mul (Nat.mul_le_mul longer longer) longer
  have visited : walk d.lattice.cells (Surface.addPoint field d level)
        (.blank d.lattice.cells room) =
      (crossedEdges d.lattice.cells (d.below level)).foldlM
        (Surface.addEdge field (d.below level)) (.blank d.lattice.cells room) :=
    walk_eq_foldlM (fun cell isCell s => addPoint_eq isCell level s) _
  rw [visited]
  have blank := Surface.holds_blank field d.lattice.cells room field.middle
  refine blank.ends_addEdges (by omega) _ ?_
    fun e member => (mem_crossedEdges.mp member).1
  rw [List.length_nil]
  omega

/-- Buffers of sufficient capacity get the quads around all crossed edges,
unless something stops it. -/
theorem dualContouring_ends {d : Density} (program : Program) (r : Request)
    {b : Buffers} (gradient : d.lattice.padding = .gradient)
    (room : b.capacity.holds
      (Algorithm.dualContouring.capacity d.lattice.cells) = true) :
    let cells := d.lattice.cells
    let below := d.below r.level
    let field := d.field program r
    Ends (fun out => ∃ s : Surface, s.buffers = out ∧
        s.Holds field cells b.capacity (d.place program r)
          (vertexPoints cells below) (quadSurface cells below))
      (fun e => ∃ fault, e = .fault fault ∧ Hindrance field cells fault)
      (dualContouring d program r b) := by
  intro cells below field
  have walked := ends_walk field d r.level room
  have made : Ends (fun s : Surface => s.Holds field cells b.capacity
        (d.place program r) (vertexPoints cells below) (quadSurface cells below))
      (Hindrance field cells) (do
        let s ← walk cells (Surface.addPoint field d r.level)
          (.blank cells b.capacity)
        if r.smooth then s.smooth field d r.level else return s) := by
    refine walked.bind fun s holds => ?_
    unfold Density.place
    split
    · refine holds.ends_smooth ?_ r.level
      rw [← gradient]
    · exact holds
  simp only [dualContouring, checkCapacity, room, gradient]
  exact (made.mapError MeshError.fault).bind fun s holds => ⟨s, rfl, holds⟩

end FieldMesh.Mesh
