import FieldMesh.Proofs.Mesh.Generation

/-!
# What requests are answered

A request is refused for its number of cells, then for its width, then for the
parameters of the program. Otherwise there is a mesh, unless noise is not
defined at one of the places that are visited for it.

* `Answered`: the answer to a request, by these conditions;
* `answered_generateOn`: it is given with any store at hand, and a refusal
  leaves the store as it was;
* **main result**: `requests_answered`;
* `generate_hugeRegion`: a store of its own is made before the request is
  checked, which a region can be too large for.
-/

namespace FieldMesh.Mesh

open FieldMesh.Formula

/-! ## Conditions -/

namespace Request

/-- The number of cells can be meshed. -/
def InRange (r : Request) : Prop :=
  1 ≤ r.cells.toNat ∧ r.cells.toNat ≤ 256

/-- The width is finite and positive. -/
def HasWidth (r : Request) : Prop :=
  r.scale.isFinite = true ∧ 0.0 < r.scale

instance (r : Request) : Decidable r.InRange :=
  inferInstanceAs (Decidable (_ ∧ _))

instance (r : Request) : Decidable r.HasWidth :=
  inferInstanceAs (Decidable (_ ∧ _))

variable {r : Request}

theorem validate_of_not_inRange (outside : ¬ r.InRange) :
    r.validate = .error (.invalidCells r.cells) := by
  have bad : r.cells = 0 ∨ maxCells < r.cells.toNat := by
    by_contra neither
    obtain ⟨nonzero, few⟩ := not_or.mp neither
    have positive : r.cells.toNat ≠ 0 := fun zero => nonzero (UInt32.toNat_inj.mp zero)
    exact outside ⟨Nat.pos_of_ne_zero positive, Nat.not_lt.mp few⟩
  rw [validate, if_pos bad]

theorem validate_of_inRange (inside : r.InRange) :
    r.validate =
      if r.scale.isFinite && r.scale > 0.0 then .ok ()
      else .error (.invalidScale r.scale) := by
  have good : ¬ (r.cells = 0 ∨ maxCells < r.cells.toNat) := by
    rintro (none | many)
    · rw [InRange, none] at inside
      exact absurd inside.1 (by decide)
    · exact absurd inside.2 (Nat.not_le.mpr many)
  rw [validate, if_neg good]

theorem validate_of_not_hasWidth (inside : r.InRange) (narrow : ¬ r.HasWidth) :
    r.validate = .error (.invalidScale r.scale) := by
  rw [validate_of_inRange inside, if_neg]
  simpa [HasWidth] using narrow

theorem validate_of_hasWidth (inside : r.InRange) (wide : r.HasWidth) :
    r.validate = .ok () := by
  rw [validate_of_inRange inside, if_pos]
  simpa [HasWidth] using wide

end Request

/-! ## Answers -/

/-- What a request is answered. It is refused for its number of cells, else
for its width, else for the parameters of the program. Else there is a mesh
with complete buffers and the generation of the session, or noise is not
defined at a place that is visited. -/
structure Answered (session : Session) (r : Request)
    (answer : Except MeshError GeneratedMesh) : Prop where
  cells : ¬ r.InRange → answer = .error (.invalidCells r.cells)
  scale : r.InRange → ¬ r.HasWidth → answer = .error (.invalidScale r.scale)
  parameters : r.InRange → r.HasWidth → 1 < session.program.parameterCount →
    answer = .error (.unsupportedParameters session.program.parameterCount)
  mesh : r.InRange → r.HasWidth → session.program.parameterCount ≤ 1 →
    Ends
      (fun mesh => mesh.generation = session.generation ∧
        mesh.buffers.Complete r.capacity)
      (fun e => e = .fault (.program .noiseUndefined) ∧
        ∃ place, r.Visits place ∧
          session.program.eval [place] = .error .noiseUndefined) answer

/-- With any store at hand, a request is answered. -/
theorem answered_generateOn (session : Session) (r : Request)
    (store : Density) : Answered session r (generateOn session r store).1 where
  cells outside := by
    rw [generateOn_of_refused (e := .invalidCells r.cells)]
    rw [checkInputs, Request.validate_of_not_inRange outside]
    rfl
  scale inside narrow := by
    rw [generateOn_of_refused (e := .invalidScale r.scale)]
    rw [checkInputs, Request.validate_of_not_hasWidth inside narrow]
    rfl
  parameters inside wide many := by
    rw [generateOn_of_refused
      (e := .unsupportedParameters session.program.parameterCount)]
    rw [checkInputs, Request.validate_of_hasWidth inside wide, if_pos many]
    rfl
  mesh inside wide few := by
    exact ends_generateOn session
      (checkInputs_ok_iff.mpr ⟨Request.validate_of_hasWidth inside wide, few⟩) store

/-- A request that is refused leaves the store as it was. -/
theorem generateOn_snd_of_refused {session : Session} {r : Request}
    {store : Density} {e : MeshError}
    (failed : (generateOn session r store).1 = .error e)
    (refused : ∀ f, e ≠ .fault f) : (generateOn session r store).2 = store := by
  cases checked : checkInputs session.program r with
  | error _ => rw [generateOn_of_refused checked]
  | ok _ =>
    have ends := ends_generateOn session checked store
    rw [failed] at ends
    exact absurd ends.1 (refused _)

/-- A lattice that cannot be stored is a fault, whatever the request is. -/
theorem generate_of_oversized {session : Session} {r : Request}
    {f : Lattice.SizeFault} (oversized : r.lattice.checkStorage = .error f) :
    generate session r = .error (.fault (.size f)) := by
  rw [generate, oversized]

/-- With a lattice that can be stored, a new store is as good as any. -/
theorem generate_of_stored {session : Session} {r : Request}
    (stored : r.lattice.checkStorage = .ok ()) :
    generate session r = (generateOn session r (.blank r.lattice)).1 := by
  rw [generate, stored]
  cases validated : r.validate with
  | error e => rw [generateOn, validated]
  | ok _ => rfl

/-- Without a store at hand, a request is answered just if its lattice can be
stored. -/
theorem answered_generate_iff (session : Session) (r : Request) :
    Answered session r (generate session r) ↔
      r.lattice.checkStorage = .ok () := by
  refine ⟨fun answered => ?_, fun stored => ?_⟩
  · cases found : r.lattice.checkStorage with
    | ok _ => rfl
    | error f =>
      have outside : ¬ r.InRange := by
        intro inside
        rw [checkStorage_of_cells inside.2] at found
        cases found
      have refused := answered.cells outside
      rw [generate_of_oversized found] at refused
      cases refused
  · rw [generate_of_stored stored]
    exact answered_generateOn session r _

/-! ## Sizes -/

/-- The sizes of a region that is not too large fit the machine: those of its
lattice, and the bytes of vertices and indices. -/
theorem sizes_of_inRange {r : Request} (inside : r.InRange) :
    r.lattice.checkStorage = .ok () ∧
      12 * r.capacity.vertices < UInt64.size / 2 ∧
      4 * r.capacity.indices < UInt64.size / 2 := by
  obtain ⟨facets, points⟩ := fits_of_cells inside.2
  refine ⟨checkStorage_of_cells inside.2, ?_⟩
  unfold Request.capacity Algorithm.capacity
  simp only [UInt32.size] at facets points
  simp only [UInt64.size]
  cases r.algorithm with
  | marchingCubes =>
    simp only [Algorithm.trianglesPerCell]
    omega
  | dualContouring =>
    simp only
    omega

/-! ## Main result -/

/-- **Requests are answered.** Every request is answered with any store at
hand, and a refusal leaves the store as it was. Alone or as one of several, it
is also answered with a store of its own, provided that the sizes of the
lattice fit the machine. In range they do, and so do those of the buffers. -/
theorem requests_answered (session : Session) (r : Request) :
    (∀ store, Answered session r (generateOn session r store).1 ∧
      ∀ e, (generateOn session r store).1 = .error e → (∀ f, e ≠ .fault f) →
        (generateOn session r store).2 = store) ∧
    (r.lattice.checkStorage = .ok () →
      Answered session r (generate session r) ∧
      ∀ (requests : List Request) (i : Nat), requests[i]? = some r →
        ∃ answer, (generateAll session requests)[i]? = some answer ∧
          Answered session r answer) ∧
    (r.InRange → r.lattice.checkStorage = .ok () ∧
      12 * r.capacity.vertices < UInt64.size / 2 ∧
      4 * r.capacity.indices < UInt64.size / 2) := by
  refine ⟨fun store => ⟨answered_generateOn session r store,
    fun e => generateOn_snd_of_refused⟩, fun stored => ?_, sizes_of_inRange⟩
  have answered := (answered_generate_iff session r).mpr stored
  refine ⟨answered, fun requests i found => ⟨_, ?_, answered⟩⟩
  rw [generateAll, List.getElem?_map, found]
  rfl

/-- A request for no cells, and one for one cell. -/
theorem requests_answered_oneCell :
    let session : Session := .publish (.constant Vec3.zero)
    let empty : Request := { cells := 0 }
    let single : Request := { cells := 1 }
    let store : Density := .blank ⟨2, .none⟩
    (generateOn session empty store).1 = .error (.invalidCells 0) ∧
    (generateOn session empty store).2 = store ∧
    single.lattice.checkStorage = .ok () ∧
    ∃ mesh, (generateAll session [empty, single])[1]? = some (.ok mesh) ∧
      mesh.generation = 0 ∧ mesh.buffers.Complete single.capacity := by
  intro session empty single store
  obtain ⟨onStore, -, -⟩ := requests_answered session empty
  obtain ⟨answered, kept⟩ := onStore store
  have refused := answered.cells (by decide)
  have stored : single.lattice.checkStorage = .ok () := by decide
  obtain ⟨answer, found, made⟩ :=
    ((requests_answered session single).2.1 stored).2 [empty, single] 1 rfl
  refine ⟨refused, kept _ refused (fun f => nofun), stored, ?_⟩
  have ends := made.mesh (by decide) (by decide) (Nat.zero_le 1)
  cases answer with
  | error fault =>
    obtain ⟨-, place, -, undefined⟩ := ends
    cases undefined
  | ok mesh => exact ⟨mesh, found, ends⟩

/-- A region of the largest number of cells, which is not in range and could
not be stored. -/
def hugeRegion : Request := { cells := 4294967295 }

/-- With a store of its own, the request is a fault and not a refusal. -/
theorem generate_hugeRegion :
    let session : Session := .publish (.constant Vec3.zero)
    ¬ hugeRegion.InRange ∧
    generate session hugeRegion = .error (.fault (.size .side)) ∧
    (generateOn session hugeRegion (.blank ⟨1, .none⟩)).1 =
      .error (.invalidCells 4294967295) ∧
    ¬ Answered session hugeRegion (generate session hugeRegion) := by
  intro session
  have outside : ¬ hugeRegion.InRange := by decide
  have oversized : hugeRegion.lattice.checkStorage = .error .side := by decide
  refine ⟨outside, generate_of_oversized oversized,
    (answered_generateOn session hugeRegion _).cells outside, fun answered => ?_⟩
  rw [answered_generate_iff, oversized] at answered
  cases answered

end FieldMesh.Mesh
