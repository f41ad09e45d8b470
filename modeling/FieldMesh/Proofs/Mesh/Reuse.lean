import FieldMesh.Proofs.Mesh.Generation
import FieldMesh.Proofs.Mesh.InPlace

/-!
# Stores and buffers used again

A store of densities and buffers can go from one request to the next. What
they held before is not seen in what is made with them.

* `extract_blank`: extraction only looks at the room of buffers;
* `Suits`: which buffers and densities a surface can be extracted with;
* **main result**: `reuse_leaves_no_trace`.
-/

namespace FieldMesh.Mesh

open FieldMesh.Formula

/-! ## Buffers -/

/-- Extraction only looks at the room of buffers. -/
theorem extract_blank (density : Density) (program : Program) (r : Request)
    (b : Buffers) :
    extract density program r b =
      extract density program r (.blank b.capacity) := by
  have check (need : Capacity) :
      checkCapacity b need = checkCapacity (.blank b.capacity) need := by
    rw [checkCapacity, checkCapacity, Buffers.capacity_blank]
  unfold extract
  cases r.algorithm with
  | marchingCubes =>
    simp only [marchingCubes, check, Buffers.capacity_blank]
  | dualContouring =>
    simp only [dualContouring, check, Buffers.capacity_blank]

/-- Whether a surface can be extracted: dual contouring reads a border, and
the buffers have to suffice. -/
def Suits (density : Density) (r : Request) (b : Buffers) : Prop :=
  (r.algorithm = .dualContouring → density.lattice.padding = .gradient) ∧
    b.capacity.holds (r.algorithm.capacity density.lattice.cells) = true

/-- What does not suit is refused for the border or for the room. -/
theorem extract_of_not_suits {density : Density} {r : Request} {b : Buffers}
    (unfit : ¬ Suits density r b) (program : Program) :
    extract density program r b = .error (.paddingRequired .dualContouring) ∨
      extract density program r b = .error (.bufferTooSmall
        (r.algorithm.capacity density.lattice.cells) b.capacity) := by
  unfold extract
  unfold Suits at unfit
  cases chosen : r.algorithm with
  | marchingCubes =>
    have small : ¬ b.capacity.holds
        (Algorithm.marchingCubes.capacity density.lattice.cells) = true := by
      simpa [chosen] using unfit
    right
    simp only [marchingCubes, checkCapacity, if_neg small]
    rfl
  | dualContouring =>
    by_cases gradient : density.lattice.padding = .gradient
    · have small : ¬ b.capacity.holds
          (Algorithm.dualContouring.capacity density.lattice.cells) = true := by
        simpa [chosen, gradient] using unfit
      right
      simp only [dualContouring, gradient, ne_eq, not_true_eq_false, if_false,
        checkCapacity, if_neg small]
      rfl
    · left
      simp only [dualContouring, gradient, ne_eq, not_false_eq_true, if_true]
      rfl

/-- What suits is not refused, though a program may stop with a fault. -/
theorem fault_of_suits {density : Density} {r : Request} {b : Buffers}
    (fit : Suits density r b) (program : Program) :
    Ends (fun _ => True) (fun e => ∃ f, e = .fault f)
      (extract density program r b) := by
  obtain ⟨border, room⟩ := fit
  unfold extract
  cases chosen : r.algorithm with
  | marchingCubes =>
    rw [chosen] at room
    obtain ⟨out, made, -⟩ := marchingCubes_eq room r.level r.scale
    simp only [made]
    trivial
  | dualContouring =>
    rw [chosen] at room
    have ends := dualContouring_ends program r (border chosen) room
    cases made : dualContouring density program r b with
    | ok out => trivial
    | error e =>
      rw [made] at ends
      obtain ⟨f, stopped, -⟩ := ends
      exact ⟨f, stopped⟩

/-! ## Main result -/

/-- **Reuse leaves no trace.** A request that is in order is answered the same
on every store as on a new one, and with a mesh its own densities are left in
the store. Each of several requests is answered as if it were alone. Buffers
that suffice end up as new ones of their capacity would, whatever they held,
and buffers that are refused keep what they held. -/
theorem reuse_leaves_no_trace (session : Session) :
    (∀ (r : Request) (store : Density), r.validate = .ok () →
      (generateOn session r store).1 = generate session r ∧
      ∀ mesh, generate session r = .ok mesh →
        sample session.program r.origin r.scale r.lattice =
          .ok (generateOn session r store).2) ∧
    (∀ (requests : List Request) (i : Nat),
      (generateAll session requests)[i]? =
        requests[i]?.map (generate session)) ∧
    ∀ (density : Density) (program : Program) (r : Request) (b : Buffers),
      (Suits density r b →
        (extractInPlace density program r).runOn b =
          (extractInPlace density program r).runOn (.blank b.capacity) ∧
        ∀ e left,
          (extractInPlace density program r).runOn b ≠ .ok (.error e, left)) ∧
      (¬ Suits density r b → ∃ e,
        (extractInPlace density program r).runOn b = .ok (.error e, b) ∧
        (e = .paddingRequired .dualContouring ∨
          e = .bufferTooSmall (r.algorithm.capacity density.lattice.cells)
            b.capacity)) := by
  refine ⟨fun r store valid => ?_, fun requests i => ?_,
    fun density program r b => ⟨fun fit => ?_, fun unfit => ?_⟩⟩
  · have same := generate_eq_generateOn session valid store
    exact ⟨same.symm, fun mesh made => generateOn_snd (same ▸ made)⟩
  · exact List.getElem?_map
  · rw [runOn_extractInPlace, runOn_extractInPlace, ← extract_blank]
    have ends := fault_of_suits fit program
    cases made : extract density program r b with
    | ok out => exact ⟨rfl, fun e left refused => by cases refused⟩
    | error e =>
      rw [made] at ends
      obtain ⟨f, rfl⟩ := ends
      exact ⟨rfl, fun e left refused => by cases refused⟩
  · rw [runOn_extractInPlace]
    rcases extract_of_not_suits unfit program with refused | refused
    · rw [refused]
      exact ⟨_, rfl, .inl rfl⟩
    · rw [refused]
      exact ⟨_, rfl, .inr rfl⟩

/-- A store with a border, and as many points as a larger region has without
one. It holds sevens. -/
def usedStore : Density := ⟨⟨2, .gradient⟩, .replicate _ 7.0⟩

/-- Buffers that are full of sevens. -/
def usedBuffers (room : Capacity) : Buffers where
  positions := .replicate room.vertices (.splat 7.0)
  normals := .replicate room.vertices (.splat 7.0)
  indices := .replicate room.indices 7
  vertexCount := room.vertices
  indexCount := room.indices

theorem capacity_usedBuffers (room : Capacity) :
    (usedBuffers room).capacity = room := by
  simp [Buffers.capacity, usedBuffers]

/-- The store is kept for a region of another size, full buffers are written
again, and buffers without room are refused. -/
theorem reuse_leaves_no_trace_usedStore :
    let session : Session := .publish (.constant Vec3.zero)
    let r : Request := { cells := 4 }
    let extraction := extractInPlace usedStore session.program r
    let full := usedBuffers (r.algorithm.capacity 2)
    let narrow := usedBuffers ⟨0, 3⟩
    usedStore.fits r.lattice = true ∧ r.validate = .ok () ∧
    (∃ mesh, (generateOn session r usedStore).1 = .ok mesh ∧
      generate session r = .ok mesh ∧
      sample session.program r.origin r.scale r.lattice =
        .ok (generateOn session r usedStore).2) ∧
    Suits usedStore r full ∧
    extraction.runOn full = extraction.runOn (.blank full.capacity) ∧
    ¬ Suits usedStore r narrow ∧
    ∃ e, extraction.runOn narrow = .ok (.error e, narrow) := by
  intro session r extraction full narrow
  have valid : r.validate = .ok () := by decide
  obtain ⟨onStore, -, inPlace⟩ := reuse_leaves_no_trace session
  have fit : Suits usedStore r full := by
    refine ⟨fun dual => (nomatch dual), ?_⟩
    rw [capacity_usedBuffers]
    decide
  have unfit : ¬ Suits usedStore r narrow := by
    rintro ⟨-, room⟩
    rw [capacity_usedBuffers] at room
    exact absurd room (by decide)
  obtain ⟨e, refused, -⟩ :=
    (inPlace usedStore session.program r narrow).2 unfit
  obtain ⟨same, kept⟩ := onStore r usedStore valid
  have ends := ends_generateOn session (r := r) (by decide) usedStore
  cases made : (generateOn session r usedStore).1 with
  | error fault =>
    rw [made] at ends
    obtain ⟨-, place, -, undefined⟩ := ends
    cases undefined
  | ok mesh =>
    have alone := same.symm.trans made
    exact ⟨by decide, valid, ⟨mesh, rfl, alone, kept mesh alone⟩, fit,
      ((inPlace usedStore session.program r full).1 fit).1, unfit, e, refused⟩

end FieldMesh.Mesh
