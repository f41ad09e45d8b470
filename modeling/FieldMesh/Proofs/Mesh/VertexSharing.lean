import Mathlib.Data.List.Nodup
import Mathlib.Data.List.Perm.Subperm
import FieldMesh.Mesh.DualContouring
import FieldMesh.Proofs.Mesh.CellCases
import FieldMesh.Proofs.Mesh.Writing

/-!
# Shared vertices

Triangles name lattice points, and every point gets one vertex when it is
named for the first time. What stops this is a fault of the program where a
normal is needed, or a region with too many points for numbers of 32 bits.

* `Ends`: what a computation ends with, whether it succeeds or not;
* `neighbours`: where a program is run for a normal; `ends_normalAt`: what it is
  from there;
* `firstNamed`: points in the order in which they are first named;
* `Surface.Holds`: a surface has the vertices of some points, and triangles
  between them;
* `Surface.Holds.ends_vertexOf`, `Surface.Holds.addTriangles`: what a vertex
  and triangles add to it;
* `Surface.Holds.moveVertex`: what moving a vertex changes;
* `WordSurface`: the numbers of vertices as words, with zero for none;
  `Surface.Numbered.vertexOf` and `Surface.Holds.numbered`: this makes no
  difference.
-/

namespace FieldMesh.Mesh

/-! ## Ends of computations -/

/-- A good result, or a fault of some kind. -/
def Ends (good : α → Prop) (bad : ε → Prop) : Except ε α → Prop
  | .ok a => good a
  | .error e => bad e

namespace Ends

variable {α β ε : Type} {good : α → Prop} {bad : ε → Prop}

theorem mono {run : Except ε α} (ends : Ends good bad run) {good' : α → Prop}
    (better : ∀ a, good a → good' a) : Ends good' bad run := by
  cases run with
  | ok a => exact better a ends
  | error e => exact ends

theorem mono_error {run : Except ε α} (ends : Ends good bad run)
    {bad' : ε → Prop} (worse : ∀ e, bad e → bad' e) : Ends good bad' run := by
  cases run with
  | ok a => exact ends
  | error e => exact worse e ends

theorem bind {run : Except ε α} (ends : Ends good bad run)
    {next : α → Except ε β} {good' : β → Prop}
    (rest : ∀ a, good a → Ends good' bad (next a)) :
    Ends good' bad (run >>= next) := by
  cases run with
  | ok a => exact rest a ends
  | error e => exact ends

theorem mapError {run : Except ε α} (ends : Ends good bad run) (f : ε → ε') :
    Ends good (fun e => ∃ fault, e = f fault ∧ bad fault) (run.mapError f) := by
  cases run with
  | ok a => exact ends
  | error e => exact ⟨e, rfl, ends⟩

/-- A loop, by what is true before each of the steps that are left. -/
theorem foldlM {step : β → α → Except ε β} {before : List α → β → Prop}
    (each : ∀ a rest b, before (a :: rest) b → Ends (before rest) bad (step b a)) :
    ∀ {items : List α} {b : β}, before items b →
      Ends (before []) bad (items.foldlM step b) := by
  intro items
  induction items with
  | nil => exact fun start => start
  | cons a rest ih =>
    intro b start
    rw [List.foldlM_cons]
    exact (each a rest b start).bind fun b' next => ih next

end Ends

/-! ## Normals -/

/-- The places that a normal is found from. -/
def neighbours (place : Vec3) (epsilon : Float32) : List Vec3 :=
  [⟨1.0, 0.0, 0.0⟩, ⟨0.0, 1.0, 0.0⟩, ⟨0.0, 0.0, 1.0⟩].flatMap fun axis : Vec3 =>
    [place - axis.scale epsilon, place + axis.scale epsilon]

/-- A normal by central differences: along each axis, how much the first
component of the program's value falls from a step behind the place to a step
ahead of it, in steps, and all three brought to length one. -/
def CentralNormal (program : Program) (place : Vec3) (epsilon : Float32)
    (normal : Vec3) : Prop :=
  ∃ x x' y y' z z' : Vec3,
    (neighbours place epsilon).map (program.eval [·]) =
      [x, x', y, y', z, z'].map .ok ∧
    normal = (Vec3.shrink ⟨x.x - x'.x, y.x - y'.x, z.x - z'.x⟩
      epsilon).normalizeOrZero

/-- A normal is found by central differences, unless there is no density at a
neighbour. -/
theorem ends_normalAt (program : Program) (place : Vec3)
    (epsilon : Float32) :
    Ends (CentralNormal program place epsilon)
      (fun fault => ∃ near ∈ neighbours place epsilon,
        densityAt program near = .error fault)
      (normalAt program place epsilon) := by
  have density {near : Vec3} (member : near ∈ neighbours place epsilon) :
      Ends (fun density => ∃ v, program.eval [near] = .ok v ∧ v.x = density)
        (fun fault => ∃ near ∈ neighbours place epsilon,
          densityAt program near = .error fault)
        (densityAt program near) := by
    cases found : densityAt program near with
    | error fault => exact ⟨near, member, found⟩
    | ok density =>
      unfold densityAt at found
      cases value : program.eval [near] with
      | error fault =>
        rw [value] at found
        cases found
      | ok v =>
        rw [value] at found
        exact ⟨v, rfl, Except.ok.inj found⟩
  have fall (axis : Vec3) (given : axis ∈
      ([⟨1.0, 0.0, 0.0⟩, ⟨0.0, 1.0, 0.0⟩, ⟨0.0, 0.0, 1.0⟩] : List Vec3)) :
      Ends (fun fall => ∃ v v',
          [place - axis.scale epsilon, place + axis.scale epsilon].map
            (program.eval [·]) = [v, v'].map .ok ∧ v.x - v'.x = fall)
        (fun fault => ∃ near ∈ neighbours place epsilon,
          densityAt program near = .error fault)
        (do
          let before ← densityAt program (place - axis.scale epsilon)
          let after ← densityAt program (place + axis.scale epsilon)
          return before - after) := by
    have near {p : Vec3} (member : p ∈
        [place - axis.scale epsilon, place + axis.scale epsilon]) :
        p ∈ neighbours place epsilon := List.mem_flatMap.mpr ⟨axis, given, member⟩
    refine (density (near List.mem_cons_self)).bind ?_
    rintro _ ⟨v, value, rfl⟩
    refine (density (near (List.mem_cons_of_mem _ List.mem_cons_self))).bind ?_
    rintro _ ⟨v', value', rfl⟩
    exact ⟨v, v', by simp [value, value'], rfl⟩
  refine (fall _ (by simp)).bind ?_
  rintro _ ⟨x, x', alongX, rfl⟩
  refine (fall _ (by simp)).bind ?_
  rintro _ ⟨y, y', alongY, rfl⟩
  refine (fall _ (by simp)).bind ?_
  rintro _ ⟨z, z', alongZ, rfl⟩
  refine ⟨x, x', y, y', z, z', ?_, rfl⟩
  rw [neighbours, List.flatMap_cons, List.flatMap_cons, List.flatMap_cons,
    List.map_append, List.map_append, List.map_append, alongX, alongY, alongZ]
  rfl

theorem centralNormal_of_normalAt {program : Program} {place normal : Vec3}
    {epsilon : Float32} (found : normalAt program place epsilon = .ok normal) :
    CentralNormal program place epsilon normal := by
  have ends := ends_normalAt program place epsilon
  rwa [found] at ends

/-! ## Points in the order of their vertices -/

/-- Puts a point last, unless it is there already. -/
def note (seen : List Point) (p : Point) : List Point :=
  if p ∈ seen then seen else seen ++ [p]

/-- Points in the order in which they are first named. -/
def firstNamed (points : List Point) : List Point := points.foldl note []

theorem prefix_note (seen : List Point) (p : Point) : seen <+: note seen p := by
  unfold note
  split
  · exact List.prefix_rfl
  · exact List.prefix_append seen [p]

theorem mem_note {seen : List Point} {p q : Point} :
    q ∈ note seen p ↔ q ∈ seen ∨ q = p := by
  unfold note
  split
  · next known =>
    constructor
    · exact .inl
    · rintro (member | rfl)
      · exact member
      · exact known
  · rw [List.mem_append, List.mem_singleton]

theorem nodup_note {seen : List Point} (nodup : seen.Nodup) (p : Point) :
    (note seen p).Nodup := by
  unfold note
  split
  · exact nodup
  · next new => exact List.nodup_append.mpr ⟨nodup, List.nodup_singleton p,
      fun a member b last same => new (List.mem_singleton.mp last ▸ same ▸ member)⟩

theorem prefix_foldl_note (points seen : List Point) :
    seen <+: points.foldl note seen := by
  induction points generalizing seen with
  | nil => exact List.prefix_rfl
  | cons p rest ih => exact (prefix_note seen p).trans (ih (note seen p))

theorem mem_foldl_note {points seen : List Point} {q : Point} :
    q ∈ points.foldl note seen ↔ q ∈ seen ∨ q ∈ points := by
  induction points generalizing seen with
  | nil => simp
  | cons p rest ih =>
    rw [List.foldl_cons, ih, mem_note, List.mem_cons, or_assoc]

/-- Exactly the named points are among those that are first named. -/
theorem mem_firstNamed {points : List Point} {q : Point} :
    q ∈ firstNamed points ↔ q ∈ points := by
  rw [firstNamed, mem_foldl_note]
  simp

theorem nodup_firstNamed (points : List Point) : (firstNamed points).Nodup := by
  have kept : ∀ seen : List Point, seen.Nodup → (points.foldl note seen).Nodup := by
    induction points with
    | nil => exact fun seen nodup => nodup
    | cons p rest ih => exact fun seen nodup => ih _ (nodup_note nodup p)
  exact kept [] List.nodup_nil

theorem getElem?_foldl_note (points : List Point) {seen : List Point} {i : Nat}
    {p : Point} (found : seen[i]? = some p) :
    (points.foldl note seen)[i]? = some p :=
  getElem?_of_prefix (prefix_foldl_note points seen) found

/-- Without repetition there are at most as many stored points as places. -/
theorem length_le_volume {l : Lattice} {points : List Point}
    (nodup : points.Nodup) (stored : ∀ p ∈ points, l.Contains p) :
    points.length ≤ l.volume := by
  have places : (points.map l.index).Nodup := by
    refine List.Nodup.map_on (fun p first q second same => ?_) nodup
    rw [← Lattice.point_index (stored p first), same,
      Lattice.point_index (stored q second)]
  have inside : points.map l.index ⊆ List.range l.volume := by
    intro i member
    obtain ⟨p, present, rfl⟩ := List.mem_map.mp member
    exact List.mem_range.mpr (Lattice.index_lt_volume (stored p present))
  have short := (List.subperm_of_subset places inside).length_le
  rwa [List.length_map, List.length_range] at short

/-! ## Surfaces that share vertices -/

/-- Where a vertex is put first. -/
def Field.middle (field : Field) (p : Point) : Vec3 :=
  (p.toVec3 + .splat 0.5).scale field.size

/-- What stops a surface from being made. -/
inductive Hindrance (field : Field) (cells : Nat) : Fault → Prop
  /-- The program has no normal somewhere. -/
  | normal {fault : Fault} (position : Vec3)
      (faulty : field.normal position = .error fault) :
      Hindrance field cells fault
  /-- The region has too many points. -/
  | vertexNumber (many : UInt32.size ≤ Lattice.volume ⟨cells, .none⟩) :
      Hindrance field cells .vertexNumber

namespace Surface

/-- The vertices of a surface are those of some points, in this order, and its
triangles are between them. -/
structure Holds (field : Field) (cells : Nat) (room : Capacity)
    (place : Point → Vec3) (points : List Point)
    (ts : List (Point × Point × Point)) (s : Surface) : Prop where
  lattice : s.lattice = ⟨cells, .none⟩
  stored : ∀ p ∈ points, s.lattice.Contains p
  nodup : points.Nodup
  few : points.length < UInt32.size
  size : s.owned.size = s.lattice.volume
  /-- Points know the numbers of their vertices. -/
  owned : ∀ p, s.lattice.Contains p → ∀ i : UInt32,
    s.owned[s.lattice.index p]?.join = some i ↔ points[i.toNat]? = some p
  inOrder : s.buffers.InOrder
  capacity : s.buffers.capacity = room
  positions : s.buffers.writtenPositions = points.map place
  normals : s.buffers.writtenNormals.map .ok =
    points.map fun p => field.normal (place p)
  /-- Named by points, the indices are the corners of the triangles. -/
  indices : s.buffers.writtenIndices.map (points[·.toNat]?) =
    (ts.flatMap triangleCorners).map some

section

variable {field : Field} {cells : Nat} {room : Capacity} {place : Point → Vec3}
  {points : List Point} {ts : List (Point × Point × Point)} {s : Surface}

theorem Holds.vertexCount (holds : s.Holds field cells room place points ts) :
    s.buffers.vertexCount = points.length := by
  have written := congrArg List.length holds.positions
  rw [Buffers.writtenPositions, List.length_take, List.length_map] at written
  have inside := holds.inOrder.vertices
  rw [Array.length_toList] at written
  omega

theorem length_triangleCorners (ts : List (Point × Point × Point)) :
    (ts.flatMap triangleCorners).length = 3 * ts.length := by
  refine length_flatMap_eq ?_ ts
  exact fun _ => rfl

theorem Holds.indexCount (holds : s.Holds field cells room place points ts) :
    s.buffers.indexCount = 3 * ts.length := by
  have written := congrArg List.length holds.indices
  rw [List.length_map, List.length_map, length_triangleCorners,
    Buffers.writtenIndices, List.length_take] at written
  have inside := holds.inOrder.indices
  rw [Array.length_toList] at written
  omega

/-- Every index is that of a vertex. -/
theorem Holds.named (holds : s.Holds field cells room place points ts)
    {i : UInt32} (member : i ∈ s.buffers.writtenIndices) :
    ∃ p, points[i.toNat]? = some p := by
  have corner : points[i.toNat]? ∈ (ts.flatMap triangleCorners).map some :=
    holds.indices ▸ List.mem_map_of_mem member
  obtain ⟨p, -, found⟩ := List.mem_map.mp corner
  exact ⟨p, found.symm⟩

/-- Triangles keep their corners when more points get vertices. -/
theorem Holds.indices_of_prefix
    (holds : s.Holds field cells room place points ts) {points' : List Point}
    (front : points <+: points') :
    s.buffers.writtenIndices.map (points'[·.toNat]?) =
      (ts.flatMap triangleCorners).map some := by
  rw [← holds.indices]
  refine List.map_congr_left fun i member => ?_
  obtain ⟨p, found⟩ := holds.named member
  rw [found]
  exact getElem?_of_prefix front found

/-- The vertices of a surface, at the places of their points. -/
theorem Holds.of_place (holds : s.Holds field cells room place points ts)
    {place' : Point → Vec3} (same : ∀ p ∈ points, place p = place' p) :
    s.Holds field cells room place' points ts :=
  { holds with
    positions := holds.positions.trans (List.map_congr_left same)
    normals := holds.normals.trans (List.map_congr_left fun p member =>
      congrArg field.normal (same p member)) }

/-- A new point gets the next vertex. -/
theorem Holds.addPoint (holds : s.Holds field cells room place points ts)
    {p : Point} (stored : s.lattice.Contains p) (new : p ∉ points)
    {normal : Vec3} (normal_eq : field.normal (place p) = .ok normal)
    {b : Buffers} (grows : s.buffers.Grows [(place p, normal)] [] b)
    (few : points.length + 1 < UInt32.size) :
    Holds field cells room place (points ++ [p]) ts { s with
      owned := s.owned.setIfInBounds (s.lattice.index p)
        (some (.ofNat points.length))
      buffers := b } where
  lattice := holds.lattice
  stored := by
    intro q member
    rcases List.mem_append.mp member with old | last
    · exact holds.stored q old
    · exact List.mem_singleton.mp last ▸ stored
  nodup := by
    have nodup := nodup_note holds.nodup p
    rwa [note, if_neg new] at nodup
  few := by rwa [List.length_append]
  size := by rw [Array.size_setIfInBounds, holds.size]
  owned := by
    intro q stored' i
    have number : (UInt32.ofNat points.length).toNat = points.length :=
      UInt32.toNat_ofNat_of_lt' (Nat.lt_of_succ_lt few)
    have inside : s.lattice.index p < s.owned.size := by
      rw [holds.size]
      exact Lattice.index_lt_volume stored
    rw [Array.getElem?_setIfInBounds, getElem?_concat_iff]
    by_cases same : q = p
    · -- the slot of the new point was empty, and gets the next number
      subst same
      have first : points[i.toNat]? ≠ some q := fun found =>
        new (List.mem_of_getElem? found)
      rw [if_pos rfl, if_pos inside]
      constructor
      · intro given
        obtain rfl : UInt32.ofNat points.length = i := Option.some.inj given
        exact .inr ⟨number, rfl⟩
      · rintro (found | ⟨last, -⟩)
        · exact absurd found first
        · exact congrArg some (UInt32.toNat_inj.mp (number.trans last.symm))
    · -- other points have other slots
      have apart : s.lattice.index p ≠ s.lattice.index q := by
        intro equal
        refine same ?_
        rw [← Lattice.point_index stored', ← equal, Lattice.point_index stored]
      rw [if_neg apart, holds.owned q stored' i]
      simp [Ne.symm same]
  inOrder := grows.inOrder
  capacity := grows.capacity.trans holds.capacity
  positions := by
    rw [grows.positions, holds.positions, List.map_append]
    rfl
  normals := by
    rw [grows.normals, List.map_append, holds.normals, List.map_append]
    simp [normal_eq]
  indices := by
    rw [grows.indices, List.append_nil]
    exact holds.indices_of_prefix (List.prefix_append points [p])

/-- At first there is nothing. -/
theorem holds_blank (field : Field) (cells : Nat) (room : Capacity)
    (place : Point → Vec3) :
    (blank cells room).Holds field cells room place [] [] where
  lattice := rfl
  stored := fun _ member => absurd member List.not_mem_nil
  nodup := List.nodup_nil
  few := by decide
  size := Array.size_replicate
  owned := by
    intro p stored i
    have inside := Lattice.index_lt_volume stored
    simp only [blank] at inside ⊢
    simp [inside]
  inOrder := Buffers.inOrder_blank room
  capacity := Buffers.capacity_blank room
  positions := rfl
  normals := rfl
  indices := rfl

/-- Points that know no number have no vertex. -/
theorem Holds.not_mem (holds : s.Holds field cells room place points ts)
    {p : Point} (stored : s.lattice.Contains p)
    (unknown : s.owned[s.lattice.index p]?.join = none) : p ∉ points := by
  intro member
  obtain ⟨k, known⟩ := List.mem_iff_getElem?.mp member
  obtain ⟨inside, -⟩ := List.getElem?_eq_some_iff.mp known
  have small : k < UInt32.size := Nat.lt_trans inside holds.few
  have given := (holds.owned p stored (.ofNat k)).mpr (by
    rwa [UInt32.toNat_ofNat_of_lt' small])
  rw [unknown] at given
  cases given

/-- A point has a vertex once it is asked for. -/
theorem Holds.ends_vertexOf
    (holds : s.Holds field cells room field.middle points ts)
    (enough : Lattice.volume ⟨cells, .none⟩ ≤ room.vertices) {p : Point}
    (stored : Lattice.Contains ⟨cells, .none⟩ p) :
    Ends (fun (i, s') => (note points p)[i.toNat]? = some p ∧
        s'.Holds field cells room field.middle (note points p) ts)
      (Hindrance field cells) (s.vertexOf field p) := by
  rw [← holds.lattice] at stored
  unfold vertexOf
  rw [if_neg (not_not.mpr stored)]
  cases found : s.owned[s.lattice.index p]?.join with
  | some i =>
    have known := (holds.owned p stored i).mp found
    have same : note points p = points := if_pos (List.mem_of_getElem? known)
    rw [same]
    exact ⟨known, holds⟩
  | none =>
    have new := holds.not_mem stored found
    have grown : note points p = points ++ [p] := if_neg new
    have short : points.length + 1 ≤ Lattice.volume ⟨cells, .none⟩ := by
      have length := length_le_volume (l := s.lattice)
        (grown ▸ nodup_note holds.nodup p) (fun q member => by
          rcases List.mem_append.mp member with old | last
          · exact holds.stored q old
          · exact List.mem_singleton.mp last ▸ stored)
      rwa [List.length_append, holds.lattice] at length
    simp only
    show Ends _ _ (field.normal (field.middle p) >>= _)
    cases normal_eq : field.normal (field.middle p) with
    | error fault => exact .normal _ normal_eq
    | ok normal =>
      rcases Buffers.addVertex_eq holds.inOrder (field.middle p) normal with
        ⟨-, b, added, grows⟩ | ⟨full, -⟩
      -- there are no more vertices than points of the region
      swap
      · rw [holds.capacity, holds.vertexCount] at full
        omega
      have number : (UInt32.ofNat points.length).toNat = points.length :=
        UInt32.toNat_ofNat_of_lt' holds.few
      show Ends _ _ (s.buffers.addVertex (field.middle p) normal >>= _)
      rw [added, holds.vertexCount]
      simp only [bind, Except.bind, number, grown]
      split
      · next last =>
        -- the count of vertices would not fit into 32 bits any more
        refine .vertexNumber ?_
        rw [← last]
        exact short
      · next fits =>
        have few := Nat.lt_of_le_of_ne (Nat.succ_le_of_lt holds.few) fits
        refine ⟨?_, holds.addPoint stored new normal_eq grows few⟩
        rw [number]
        exact List.getElem?_concat_length

/-- Whether three numbers are those of the vertices of a triangle. -/
def Names (points : List Point) (numbers : UInt32 × UInt32 × UInt32)
    (t : Point × Point × Point) : Prop :=
  points[numbers.1.toNat]? = some t.1 ∧
    points[numbers.2.1.toNat]? = some t.2.1 ∧
    points[numbers.2.2.toNat]? = some t.2.2

theorem Holds.addTriangle (holds : s.Holds field cells room place points ts)
    {i j k : UInt32} {t : Point × Point × Point} (names : Names points (i, j, k) t)
    (enough : 3 * (ts.length + 1) ≤ room.indices) :
    ∃ b, s.buffers.addTriangle i j k = .ok b ∧
      Holds field cells room place points (ts ++ [t]) { s with buffers := b } := by
  obtain ⟨first, second, third⟩ := names
  rcases Buffers.addTriangle_eq holds.inOrder i j k with
    ⟨-, b, added, grows⟩ | ⟨full, -⟩
  swap
  · rw [holds.capacity, holds.indexCount] at full
    omega
  refine ⟨b, added, { holds with
    inOrder := grows.inOrder
    capacity := grows.capacity.trans holds.capacity
    positions := ?_
    normals := ?_
    indices := ?_ }⟩
  · rw [grows.positions, List.map_nil, List.append_nil, holds.positions]
  · rw [grows.normals, List.map_nil, List.append_nil, holds.normals]
  · rw [grows.indices, List.map_append, holds.indices, List.flatMap_append,
      List.map_append]
    simp [triangleCorners, first, second, third]

theorem Holds.addTriangles (holds : s.Holds field cells room place points ts)
    {numbers : List (UInt32 × UInt32 × UInt32)}
    {new : List (Point × Point × Point)}
    (names : List.Forall₂ (Names points) numbers new)
    (enough : 3 * (ts.length + new.length) ≤ room.indices) :
    ∃ b, numbers.foldlM
        (fun (b : Buffers) (i, j, k) => b.addTriangle i j k) s.buffers = .ok b ∧
      Holds field cells room place points (ts ++ new) { s with buffers := b } := by
  induction names generalizing ts s with
  | nil => exact ⟨s.buffers, rfl, by rwa [List.append_nil]⟩
  | @cons number t numbers new first rest ih =>
    rw [List.length_cons] at enough
    obtain ⟨b, added, one⟩ := holds.addTriangle first (by omega)
    obtain ⟨b', done, all⟩ := ih one (by
      rw [List.length_append, List.length_singleton]
      omega)
    refine ⟨b', ?_, ?_⟩
    · rw [List.foldlM_cons]
      exact (congrArg (· >>= _) added).trans done
    · rwa [List.append_assoc] at all

/-- A vertex that is moved is that of its point. -/
theorem Holds.moveVertex (holds : s.Holds field cells room place points ts)
    {i : UInt32} {p : Point} (found : points[i.toNat]? = some p)
    {position normal : Vec3} (normal_eq : field.normal position = .ok normal) :
    Holds field cells room (Function.update place p position) points ts
      { s with buffers := s.buffers.moveVertex i position normal } := by
  -- a point is in the list once, so the list changes at one place
  have moved {β : Type} (f : Point → β) (v : β) :
      points.map (Function.update f p v) = (points.map f).set i.toNat v := by
    obtain ⟨inside, same⟩ := List.getElem?_eq_some_iff.mp found
    rw [holds.nodup.map_update, if_pos (List.mem_of_getElem? found), ← same,
      holds.nodup.idxOf_getElem]
  refine { holds with
    inOrder := ?_
    capacity := ?_
    positions := ?_
    normals := ?_ }
  · refine ⟨?_, ?_, holds.inOrder.indices⟩
    · rw [Buffers.moveVertex, Array.size_setIfInBounds]
      exact holds.inOrder.vertices
    · rw [Buffers.moveVertex, Array.size_setIfInBounds, Array.size_setIfInBounds]
      exact holds.inOrder.normals
  · rw [Buffers.capacity, Buffers.moveVertex, Array.size_setIfInBounds]
    exact holds.capacity
  · rw [moved, ← holds.positions, Buffers.writtenPositions,
      Buffers.writtenPositions, Buffers.moveVertex, Array.toList_setIfInBounds,
      List.take_set]
  · have normals : (fun q => field.normal (Function.update place p position q)) =
        Function.update (fun q => field.normal (place q)) p (.ok normal) := by
      rw [← normal_eq]
      exact Function.comp_update field.normal place p position
    rw [normals, moved, ← holds.normals, Buffers.writtenNormals,
      Buffers.writtenNormals, Buffers.moveVertex, Array.toList_setIfInBounds,
      List.take_set, List.map_set]

end

end Surface

/-! ## Numbers in words -/

/-- A surface that keeps a word for every lattice point: one more than the
number of its vertex, or zero if it has none. -/
structure WordSurface where
  lattice : Lattice
  slots : Array UInt32
  buffers : Buffers

namespace WordSurface

/-- The number of the vertex that a slot stands for. -/
def number? (s : WordSurface) (slot : Nat) : Option UInt32 :=
  let word := s.slots.getD slot 0
  if word = 0 then none else some (word - 1)

/-- The vertex of a lattice point, made on first use and read back from its
slot. -/
def vertexOf (field : Field) (s : WordSurface) (point : Point) :
    Except Fault (UInt32 × WordSurface) := do
  let slot := s.lattice.index point
  if ¬ s.lattice.Contains point then throw (.outside point s.lattice.side)
  if s.slots.getD slot 0 ≠ 0 then return (s.slots.getD slot 0 - 1, s)
  let position := (point.toVec3 + .splat 0.5).scale field.size
  let normal ← field.normal position
  let (index, buffers) ← s.buffers.addVertex position normal
  if index.toNat + 1 = UInt32.size then throw .vertexNumber
  let slots := s.slots.setIfInBounds slot (index + 1)
  return (slots.getD slot 0 - 1, { s with slots, buffers })

end WordSurface

namespace Surface

/-- The word of a slot. -/
def word : Option UInt32 → UInt32
  | none => 0
  | some index => index + 1

/-- The same surface with its numbers in words. -/
def inWords (s : Surface) : WordSurface :=
  ⟨s.lattice, s.owned.map word, s.buffers⟩

/-- Every number leaves room for one more, and every lattice point has a
slot. -/
structure Numbered (s : Surface) : Prop where
  size : s.owned.size = s.lattice.volume
  small : ∀ (slot : Nat) (index : UInt32), s.owned[slot]?.join = some index →
    index.toNat + 1 < UInt32.size

theorem word_ne_zero {index : UInt32} (small : index.toNat + 1 < UInt32.size) :
    word (some index) ≠ 0 := by
  intro zero
  have number : (index + 1).toNat = index.toNat + 1 := by
    rw [UInt32.toNat_add]
    exact Nat.mod_eq_of_lt small
  rw [show index + 1 = 0 from zero] at number
  cases number

theorem word_sub_one (index : UInt32) : word (some index) - 1 = index :=
  UInt32.add_sub_cancel index 1

theorem getD_inWords (s : Surface) (slot : Nat) :
    s.inWords.slots.getD slot 0 = word s.owned[slot]?.join := by
  rw [inWords, Array.getD_eq_getD_getElem?, Array.getElem?_map]
  cases s.owned[slot]? with
  | none => rfl
  | some owned => rfl

/-- In words a slot stands for the same vertex. -/
theorem Numbered.number? {s : Surface} (numbered : s.Numbered) (slot : Nat) :
    s.inWords.number? slot = s.owned[slot]?.join := by
  rw [WordSurface.number?, getD_inWords]
  cases owned : s.owned[slot]?.join with
  | none => rfl
  | some index =>
    rw [if_neg (word_ne_zero (numbered.small slot index owned)), word_sub_one]

/-- In words a lattice point has the same vertex, or fails alike. -/
theorem Numbered.vertexOf {s : Surface} (numbered : s.Numbered) (field : Field)
    (p : Point) :
    s.inWords.vertexOf field p =
      (s.vertexOf field p).map fun (index, s') => (index, s'.inWords) := by
  have lattice : s.inWords.lattice = s.lattice := rfl
  have buffers : s.inWords.buffers = s.buffers := rfl
  unfold WordSurface.vertexOf Surface.vertexOf
  simp only [lattice, buffers, getD_inWords]
  by_cases stored : s.lattice.Contains p
  swap
  · rw [if_pos stored, if_pos stored]
    rfl
  rw [if_neg (not_not.mpr stored), if_neg (not_not.mpr stored)]
  cases owned : s.owned[s.lattice.index p]?.join with
  | some index =>
    rw [if_pos (word_ne_zero (numbered.small _ index owned)), word_sub_one]
    rfl
  | none =>
    rw [if_neg (show ¬ word none ≠ 0 from not_not.mpr rfl)]
    simp only
    show (field.normal (field.middle p) >>= _) =
      ((field.normal (field.middle p) >>= _).map _)
    cases field.normal (field.middle p) with
    | error fault => rfl
    | ok normal =>
      show (s.buffers.addVertex (field.middle p) normal >>= _) =
        ((s.buffers.addVertex (field.middle p) normal >>= _).map _)
      rcases s.buffers.addVertex (field.middle p) normal with
        fault | ⟨index, after⟩
      · rfl
      have inside : s.lattice.index p < s.inWords.slots.size := by
        rw [inWords, Array.size_map, numbered.size]
        exact Lattice.index_lt_volume stored
      simp only [bind, Except.bind]
      split
      · rfl
      · -- what is read back is what was just written
        have back : (s.inWords.slots.setIfInBounds (s.lattice.index p)
            (index + 1)).getD (s.lattice.index p) 0 = word (some index) := by
          rw [Array.getD_eq_getD_getElem?, Array.getElem?_setIfInBounds_self,
            if_pos inside]
          rfl
        rw [back, word_sub_one]
        simp only [pure, Except.pure, Except.map, inWords, Array.map_setIfInBounds,
          word]

/-- Surfaces on the way have such numbers. -/
theorem Holds.numbered {field : Field} {cells : Nat} {room : Capacity}
    {place : Point → Vec3} {points : List Point} {ts : List (Point × Point × Point)}
    {s : Surface} (holds : s.Holds field cells room place points ts) :
    s.Numbered := by
  refine ⟨holds.size, fun slot index known => ?_⟩
  have inside : slot < s.lattice.volume := by
    by_contra outside
    rw [Array.getElem?_eq_none (by rw [holds.size]; omega)] at known
    cases known
  have stored := Lattice.contains_point inside
  rw [← Lattice.index_point s.lattice slot] at known
  have found := (holds.owned _ stored index).mp known
  obtain ⟨before, -⟩ := List.getElem?_eq_some_iff.mp found
  exact Nat.lt_of_le_of_lt before holds.few

end Surface

end FieldMesh.Mesh
