import FieldMesh.Mesh.Generation

/-!
# Extraction in place

The surface of sampled densities, made in buffers that are at hand, in the
order in which things happen: what is refused is refused before anything is
cleared, then the buffers are cleared, and then they are written to.

* `InPlace`: work on buffers at hand, which can refuse or stop with a fault;
* `extractInPlace`: the extraction of a surface as such work;
* **main result**: `runOn_extractInPlace`, which tells what is left in the
  buffers from the surface that `extract` gives.
-/

namespace FieldMesh.Mesh

/-- Work on buffers at hand. A refusal leaves them as they are by then, and a
fault ends everything. -/
abbrev InPlace (α : Type) :=
  ExceptT MeshError (StateT Buffers (Except Fault)) α

namespace InPlace

variable {α β : Type}

/-- Does some work on buffers. -/
def runOn (work : InPlace α) (b : Buffers) :
    Except Fault (Except MeshError α × Buffers) :=
  StateT.run (ExceptT.run work) b

/-! ## Steps -/

/-- Refuses buffers that do not pass a check. -/
def require (check : Buffers → Except MeshError Unit) : InPlace Unit :=
  ExceptT.mk fun b => .ok (check b, b)

/-- Forgets what is written, and keeps the room. -/
def clear : InPlace Unit :=
  ExceptT.mk fun b => .ok (.ok (), .blank b.capacity)

/-- Writes to the buffers. -/
def write (step : Buffers → Except Fault Buffers) : InPlace Unit :=
  ExceptT.mk fun b => (step b).map fun b => (.ok (), b)

/-- Goes on with a surface whose buffers are those at hand. -/
def grow (step : Surface → Except Fault Surface) (s : Surface) :
    InPlace Surface :=
  ExceptT.mk fun b =>
    (step { s with buffers := b }).map fun s => (.ok s, s.buffers)

/-! ## Runs -/

theorem runOn_bind (work : InPlace α) (next : α → InPlace β) (b : Buffers) :
    (work >>= next).runOn b = do
      match ← work.runOn b with
      | (.ok a, b) => (next a).runOn b
      | (.error e, b) => return (.error e, b) := by
  show (StateT.run (ExceptT.run work) b >>= fun p => _) =
    StateT.run (ExceptT.run work) b >>= _
  cases StateT.run (ExceptT.run work) b with
  | error f => rfl
  | ok p =>
    obtain ⟨result, b⟩ := p
    cases result <;> rfl

theorem runOn_require_bind (check : Buffers → Except MeshError Unit)
    (next : InPlace α) (b : Buffers) :
    (require check >>= fun _ => next).runOn b =
      match check b with
      | .ok () => next.runOn b
      | .error e => .ok (.error e, b) := by
  have checked : (require check).runOn b = .ok (check b, b) := rfl
  rw [runOn_bind, checked]
  cases check b <;> rfl

theorem runOn_clear_bind (next : InPlace α) (b : Buffers) :
    (clear >>= fun _ => next).runOn b = next.runOn (.blank b.capacity) := rfl

/-- Writing step by step writes what the steps do one after the other. -/
theorem runOn_foldlM_write (step : Buffers → α → Except Fault Buffers)
    (items : List α) (b : Buffers) :
    runOn (items.foldlM (fun _ a => write (step · a)) ()) b =
      (items.foldlM step b).map fun b => (.ok (), b) := by
  induction items generalizing b with
  | nil => rfl
  | cons a rest ih =>
    rw [List.foldlM_cons, List.foldlM_cons, runOn_bind]
    show ((step b a).map _ >>= _) = _
    cases step b a with
    | error f => rfl
    | ok b => exact ih b

/-- The same for a surface, as long as it starts from the buffers at hand. -/
theorem runOn_foldlM_grow (step : Surface → α → Except Fault Surface)
    (items : List α) (s : Surface) :
    runOn (items.foldlM (fun s a => grow (step · a) s) s) s.buffers =
      (items.foldlM step s).map fun s => (.ok s, s.buffers) := by
  induction items generalizing s with
  | nil => rfl
  | cons a rest ih =>
    rw [List.foldlM_cons, List.foldlM_cons, runOn_bind]
    show ((step s a).map _ >>= _) = _
    cases step s a with
    | error f => rfl
    | ok s => exact ih s

/-- What goes on with a surface, after what has made one. -/
theorem runOn_bind_surface {work : InPlace Surface} {b : Buffers}
    {made : Except Fault Surface} {next : Surface → InPlace Surface}
    {rest : Surface → Except Fault Surface}
    (first : work.runOn b = made.map fun s => (.ok s, s.buffers))
    (second : ∀ s, (next s).runOn s.buffers =
      (rest s).map fun s => (.ok s, s.buffers)) :
    (work >>= next).runOn b =
      (made >>= rest).map fun s => (.ok s, s.buffers) := by
  rw [runOn_bind, first]
  cases made with
  | error f => rfl
  | ok s => exact second s

end InPlace

/-! ## Extraction -/

open InPlace

/-- Writes the surface of a region, cell by cell. -/
def marchingCubesInPlace (density : Density) (level scale : Float32) :
    InPlace Unit := do
  let cells := density.lattice.cells
  require (checkCapacity · (Algorithm.marchingCubes.capacity cells))
  clear
  let size := cellSize scale cells
  walk cells (fun _ cell => write (addCell density level size · cell)) ()

/-- Makes the surface of a region, lattice point by lattice point, and moves
its vertices where this is asked for. -/
def surfaceInPlace (density : Density) (field : Field) (r : Request) :
    InPlace Surface := do
  let s ← walk density.lattice.cells
    (fun s point => grow (·.addPoint field density r.level point) s)
    (.blank density.lattice.cells (← get).capacity)
  if r.smooth then
    (List.range s.lattice.volume).foldlM
      (fun s slot => grow (·.smoothPoint field density r.level slot) s) s
  else return s

/-- Writes the surface of a region with its densities and their border. -/
def dualContouringInPlace (density : Density) (program : Program)
    (r : Request) : InPlace Unit := do
  if density.lattice.padding ≠ .gradient then
    throw (.paddingRequired .dualContouring)
  let cells := density.lattice.cells
  require (checkCapacity · (Algorithm.dualContouring.capacity cells))
  clear
  let field : Field := ⟨program, r.origin, cellSize r.scale cells, r.epsilon⟩
  let _ ← surfaceInPlace density field r

/-- Writes the surface of sampled densities. -/
def extractInPlace (density : Density) (program : Program) (r : Request) :
    InPlace Unit :=
  match r.algorithm with
  | .marchingCubes => marchingCubesInPlace density r.level r.scale
  | .dualContouring => dualContouringInPlace density program r

/-- What is left of buffers, by the surface that is made for them. -/
def InPlace.outcome (b : Buffers) : Except MeshError Buffers →
    Except Fault (Except MeshError Unit × Buffers)
  | .ok surface => .ok (.ok (), surface)
  | .error (.fault f) => .error f
  | .error e => .ok (.error e, b)

theorem runOn_marchingCubesInPlace (density : Density) (level scale : Float32)
    (b : Buffers) :
    (marchingCubesInPlace density level scale).runOn b =
      outcome b (marchingCubes density level scale b) := by
  simp only [marchingCubesInPlace, marchingCubes, runOn_require_bind,
    checkCapacity, walk_eq]
  by_cases room : b.capacity.holds
      (Algorithm.marchingCubes.capacity density.lattice.cells) = true
  · simp only [if_pos room, runOn_clear_bind, runOn_foldlM_write]
    cases (cellPoints density.lattice.cells).foldlM
      (addCell density level (cellSize scale density.lattice.cells))
      (.blank b.capacity) <;> rfl
  · simp only [if_neg room]
    rfl

/-- The surface of a region in buffers of their own. -/
def surfaceWithin (density : Density) (field : Field) (r : Request)
    (room : Capacity) : Except Fault Surface := do
  let s ← walk density.lattice.cells (Surface.addPoint field density r.level)
    (.blank density.lattice.cells room)
  if r.smooth then s.smooth field density r.level else return s

/-- On buffers that are cleared, it is the surface of buffers of its own. -/
theorem runOn_surfaceInPlace (density : Density) (field : Field) (r : Request)
    (room : Capacity) :
    (surfaceInPlace density field r).runOn (.blank room) =
      (surfaceWithin density field r room).map fun s => (.ok s, s.buffers) := by
  unfold surfaceInPlace surfaceWithin
  show runOn (walk _ _ (Surface.blank _ (Buffers.blank room).capacity) >>= _) _ = _
  rw [Buffers.capacity_blank, walk_eq, walk_eq]
  refine runOn_bind_surface ?_ fun s => ?_
  · exact runOn_foldlM_grow _ _ (.blank density.lattice.cells room)
  · split
    · exact runOn_foldlM_grow _ _ s
    · rfl

theorem runOn_dualContouringInPlace (density : Density) (program : Program)
    (r : Request) (b : Buffers) :
    (dualContouringInPlace density program r).runOn b =
      outcome b (dualContouring density program r b) := by
  by_cases gradient : density.lattice.padding = .gradient
  · simp only [dualContouringInPlace, dualContouring, gradient, ne_eq,
      not_true_eq_false, if_false, runOn_require_bind, checkCapacity]
    by_cases room : b.capacity.holds
        (Algorithm.dualContouring.capacity density.lattice.cells) = true
    · simp only [if_pos room, runOn_clear_bind]
      rw [runOn_bind, runOn_surfaceInPlace]
      show _ = outcome b
        (Except.mapError _ (surfaceWithin density _ r b.capacity) >>= _)
      cases surfaceWithin density _ r b.capacity <;> rfl
    · simp only [if_neg room]
      rfl
  · simp only [dualContouringInPlace, dualContouring, gradient, ne_eq,
      not_false_eq_true, if_true]
    rfl

/-- **Extraction in place.** It writes the surface that is made for buffers of
the same room. What is refused leaves the buffers as they were. -/
theorem runOn_extractInPlace (density : Density) (program : Program)
    (r : Request) (b : Buffers) :
    (extractInPlace density program r).runOn b =
      outcome b (extract density program r b) := by
  unfold extractInPlace extract
  cases r.algorithm with
  | marchingCubes => exact runOn_marchingCubesInPlace density r.level r.scale b
  | dualContouring => exact runOn_dualContouringInPlace density program r b

end FieldMesh.Mesh
