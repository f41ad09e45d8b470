import FieldMesh.Mesh.MarchingCubes
import FieldMesh.Mesh.Request

/-!
# Dual contouring

Every lattice point can own one vertex, in the middle of the cell above it.
An edge of the lattice with its ends on different sides of the level is
crossed by a quad, whose corners are the vertices of the four cells around
that edge. Each lattice point looks after the three edges that meet at the
far corner of its cell.

* `QuadCase.ofCode`: the quads of a lattice point;
* `Surface.vertexOf`: the vertex of a lattice point, made on first use;
* `dualContouring`: the surface of a region;
* `Surface.smooth`: moves the vertices onto the surface.
-/

namespace FieldMesh.Mesh

/-! ## Quads -/

/-- The quads of a lattice point. -/
structure QuadCase where
  quads : List Quad
  /-- Whether they turn the other way round. -/
  flipped : Bool
  deriving DecidableEq, Repr

/-- The quads of every code. -/
def quadCases : List QuadCase := [
  ⟨[], false⟩,
  ⟨[.acrossZ], false⟩,
  ⟨[.acrossY], false⟩,
  ⟨[.acrossZ, .acrossY], false⟩,
  ⟨[.acrossX], false⟩,
  ⟨[.acrossZ, .acrossX], false⟩,
  ⟨[.acrossY, .acrossX], false⟩,
  ⟨[.acrossZ, .acrossY, .acrossX], false⟩,
  ⟨[.acrossZ, .acrossY, .acrossX], true⟩,
  ⟨[.acrossY, .acrossX], true⟩,
  ⟨[.acrossZ, .acrossX], true⟩,
  ⟨[.acrossX], true⟩,
  ⟨[.acrossZ, .acrossY], true⟩,
  ⟨[.acrossY], true⟩,
  ⟨[.acrossZ], true⟩,
  ⟨[], true⟩ ]

/-- The quads for a code with a bit for each of `farCorners`, set if that is
below the level. -/
def QuadCase.ofCode (code : Nat) : QuadCase := quadCases.getD code ⟨[], false⟩

/-- The code of a lattice point. -/
def quadCode (density : Density) (point : Point) (level : Float32) :
    Except Fault Nat := do
  let values ← farCorners.mapM fun c => density.value (point + c.offset)
  return binary (values.map (· < level))

/-! ## Vertices -/

/-- What the vertices of a region depend on. -/
structure Field where
  program : Program
  origin : Vec3
  /-- The size of a cell. -/
  size : Float32
  epsilon : Float32

/-- The normal at a position relative to the region. -/
def Field.normal (field : Field) (position : Vec3) : Except Fault Vec3 :=
  (normalAt field.program (field.origin + position) field.epsilon).mapError
    .program

/-- A surface that is being made. -/
structure Surface where
  lattice : Lattice
  /-- The vertex of each lattice point that has one. -/
  owned : Array (Option UInt32)
  buffers : Buffers

namespace Surface

/-- No vertices yet. -/
def blank (cells : Nat) (capacity : Capacity) : Surface where
  lattice := ⟨cells, .none⟩
  owned := .replicate (Lattice.volume ⟨cells, .none⟩) none
  buffers := .blank capacity

/-- The vertex of a lattice point, made on first use. -/
def vertexOf (field : Field) (s : Surface) (point : Point) :
    Except Fault (UInt32 × Surface) :=
  let slot := s.lattice.index point
  if ¬ s.lattice.Contains point then
    .error (.outside point s.lattice.side)
  else match s.owned[slot]?.join with
    | some index => .ok (index, s)
    | none => do
      let position := (point.toVec3 + .splat 0.5).scale field.size
      let normal ← field.normal position
      let (index, buffers) ← s.buffers.addVertex position normal
      if index.toNat + 1 = UInt32.size then throw .vertexNumber
      return (index, { s with
        owned := s.owned.setIfInBounds slot (some index)
        buffers })

/-- The two triangles of a quad with the given vertices. -/
def quadTriangles (flipped : Bool) (a b c d : α) : List (α × α × α) :=
  if flipped then [(a, b, c), (a, c, d)] else [(a, c, b), (a, d, c)]

/-- Writes a quad of the cell at a lattice point. -/
def addQuad (field : Field) (cell : Point) (flipped : Bool) (s : Surface)
    (quad : Quad) : Except Fault Surface := do
  let (a, s) ← s.vertexOf field (cell + quad.a.offset)
  let (b, s) ← s.vertexOf field (cell + quad.b.offset)
  let (c, s) ← s.vertexOf field (cell + quad.c.offset)
  let (d, s) ← s.vertexOf field (cell + quad.d.offset)
  let buffers ← (quadTriangles flipped a b c d).foldlM
    (fun (b : Buffers) (i, j, k) => b.addTriangle i j k) s.buffers
  return { s with buffers }

/-- Writes the quads of a lattice point. -/
def addPoint (field : Field) (density : Density) (level : Float32)
    (s : Surface) (point : Point) : Except Fault Surface := do
  let case := QuadCase.ofCode (← quadCode density point level)
  case.quads.foldlM (addQuad field point case.flipped) s

/-! ## Smoothing -/

/-- The mean of the crossings of a cell, relative to its least corner. There
is none if no edge is crossed. -/
def meanCrossing (corners : Corners) (level : Float32) : Option Vec3 :=
  let mask := crossingMask (caseOf corners level)
  if mask = 0 then none
  else
    let crossed := edges.filter fun e : Edge => mask.testBit e
    let place (e : Edge) : Vec3 :=
      let t := edgeCrossing corners level e
      (e.ends.1.offset.toVec3 + e.direction.toVec3.scale t).clamp
        Vec3.zero (.splat 1.0)
    let sum := crossed.foldl (fun sum e => sum + place e) Vec3.zero
    some (sum.shrink (.ofNat crossed.length))

/-- Moves the vertex of a lattice point to the mean of its crossings. -/
def smoothPoint (field : Field) (density : Density) (level : Float32)
    (s : Surface) (slot : Nat) : Except Fault Surface := do
  let point := s.lattice.point slot
  let corners ← density.corners point
  match meanCrossing corners level, s.owned[slot]?.join with
  | some mean, some index =>
    let position := (point.toVec3 + mean).scale field.size
    let normal ← field.normal position
    return { s with buffers := s.buffers.moveVertex index position normal }
  | _, _ => return s

/-- Moves every vertex to the mean of its crossings. -/
def smooth (field : Field) (density : Density) (level : Float32)
    (s : Surface) : Except Fault Surface :=
  (List.range s.lattice.volume).foldlM (smoothPoint field density level) s

end Surface

/-- Writes the surface of a region into buffers of sufficient capacity. The
densities are those of the program, with a border. -/
def dualContouring (density : Density) (program : Program) (r : Request)
    (b : Buffers) : Except MeshError Buffers := do
  if density.lattice.padding ≠ .gradient then
    throw (.paddingRequired .dualContouring)
  let cells := density.lattice.cells
  checkCapacity b (Algorithm.dualContouring.capacity cells)
  let field : Field := ⟨program, r.origin, cellSize r.scale cells, r.epsilon⟩
  let surface := do
    let s ← walk cells (Surface.addPoint field density r.level)
      (.blank cells b.capacity)
    if r.smooth then s.smooth field density r.level else return s
  return (← surface.mapError .fault).buffers

end FieldMesh.Mesh
