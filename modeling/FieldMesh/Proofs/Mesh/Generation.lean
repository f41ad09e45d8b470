import FieldMesh.Proofs.Mesh.Output

/-!
# Answering requests

A request is checked, its densities are sampled, and the surface is extracted.
Of the store at hand nothing is seen in the answer, and what can go wrong
after the check is only that noise is not defined where the program is run.

* `putAll_congr`: filling all places of a store forgets what it held;
* `generateOn_eq`: the answer, with the densities of a new store;
* `generate_eq_generateOn`: a store of its own makes no difference;
* `Request.Visits`: where the program is run for a request;
* **main result**: `ends_generateOn`, what a request that passes the check
  ends with.
-/

namespace FieldMesh.Mesh

open FieldMesh.Formula

/-! ## Stores -/

/-- Stores that agree on the places that are not filled are filled alike. -/
theorem putAll_congr {value : Fin n → Except ε α} {order : List (Fin n)}
    {store other : Vector α n}
    (agree : ∀ i (below : i < n), ⟨i, below⟩ ∉ order → store[i] = other[i]) :
    putAll value order store = putAll value order other := by
  induction order generalizing store other with
  | nil =>
    have same : store = other :=
      Vector.ext fun i below => agree i below List.not_mem_nil
    rw [same]
  | cons k rest ih =>
    rw [putAll_cons, putAll_cons]
    cases value k with
    | error fault => rfl
    | ok v =>
      refine ih fun i below later => ?_
      by_cases here : k.val = i
      · simp [here]
      · have apart : (⟨i, below⟩ : Fin n) ≠ k := fun same => here (same ▸ rfl)
        have kept := agree i below (by simp [apart, later])
        simpa [here] using kept

/-- Densities are those of a new store, whatever the store was used for. -/
theorem sampleInto_eq_sample (program : Program) (origin : Vec3)
    (scale : Float32) (lattice : Lattice) (store : Density) :
    sampleInto program origin scale lattice store =
      sample program origin scale lattice := by
  have filled (value : Fin lattice.volume → Except Program.Fault Float32) :
      putAll value (List.finRange _) (store.storeFor lattice) =
        putAll value (List.finRange _) ((Density.blank lattice).storeFor lattice) :=
    putAll_congr fun i below absent => absurd (List.mem_finRange ⟨i, below⟩) absent
  simp only [sample, sampleInto, filled]

/-! ## Requests -/

/-- A request is checked, then the program is sampled, then the surface is
extracted. The store is only seen in what is left of it. -/
theorem generateOn_eq (session : Session) (r : Request) (store : Density) :
    generateOn session r store =
      match checkInputs session.program r with
      | .error e => (.error e, store)
      | .ok () =>
        match sample session.program r.origin r.scale r.lattice with
        | .error fault =>
          (.error (.fault (.program fault)), store.reshape r.lattice)
        | .ok density =>
          ((extract density session.program r (.blank r.capacity)).map
            (⟨·, session.generation⟩), density) := by
  unfold generateOn
  cases validated : r.validate with
  | error e =>
    have refused : checkInputs session.program r = .error e := by
      rw [checkInputs, validated]
      rfl
    rw [refused]
  | ok _ =>
    simp only [Session.snapshot, generateInto, sampleInto_eq_sample]
    cases checkInputs session.program r with
    | error e => rfl
    | ok _ => cases sample session.program r.origin r.scale r.lattice <;> rfl

/-- A request that does not pass the check gets the error of the check. -/
theorem generateOn_of_refused {session : Session} {r : Request} {e : MeshError}
    (refused : checkInputs session.program r = .error e) (store : Density) :
    generateOn session r store = (.error e, store) := by
  rw [generateOn_eq, refused]

/-- The mesh of a request does not depend on the store at hand. -/
theorem generateOn_fst (session : Session) (r : Request)
    (store other : Density) :
    (generateOn session r store).1 = (generateOn session r other).1 := by
  rw [generateOn_eq, generateOn_eq]
  cases checkInputs session.program r with
  | error e => rfl
  | ok _ => cases sample session.program r.origin r.scale r.lattice <;> rfl

/-- With the mesh, the densities of its request are left in the store. -/
theorem generateOn_snd {session : Session} {r : Request} {store : Density}
    {mesh : GeneratedMesh}
    (made : (generateOn session r store).1 = .ok mesh) :
    sample session.program r.origin r.scale r.lattice =
      .ok (generateOn session r store).2 := by
  rw [generateOn_eq] at made ⊢
  cases checked : checkInputs session.program r with
  | error e => simp [checked] at made
  | ok _ =>
    cases sampled : sample session.program r.origin r.scale r.lattice with
    | error fault => simp [checked, sampled] at made
    | ok density => rfl

/-- What passes the check. -/
theorem checkInputs_ok_iff {program : Program} {r : Request} :
    checkInputs program r = .ok () ↔
      r.validate = .ok () ∧ program.parameterCount ≤ 1 := by
  constructor
  · intro checked
    unfold checkInputs at checked
    cases valid : r.validate with
    | error e =>
      rw [valid] at checked
      cases checked
    | ok _ =>
      refine ⟨rfl, Nat.not_lt.mp fun many => ?_⟩
      rw [valid, if_pos many] at checked
      cases checked
  · rintro ⟨valid, few⟩
    rw [checkInputs, valid, if_neg (Nat.not_lt.mpr few)]
    rfl

/-- The lattice of a region that is not too large can be stored. -/
theorem checkStorage_of_cells {r : Request} (few : r.cells.toNat ≤ maxCells) :
    r.lattice.checkStorage = .ok () := by
  have few : r.cells.toNat ≤ 256 := few
  have side : r.lattice.side ≤ 259 := by
    have border : r.lattice.border ≤ 1 := by
      unfold Lattice.border Padding.border
      split <;> decide
    show r.cells.toNat + 1 + 2 * r.lattice.border ≤ 259
    omega
  have volume : r.lattice.volume ≤ 259 * 259 * 259 :=
    Nat.mul_le_mul (Nat.mul_le_mul side side) side
  have narrow : ¬ UInt32.size ≤ r.lattice.side := by
    simp only [UInt32.size]
    omega
  have few : ¬ UInt64.size ≤ r.lattice.volume := by
    simp only [UInt64.size]
    omega
  have small : ¬ UInt64.size / 2 ≤ 4 * r.lattice.volume := by
    simp only [UInt64.size]
    omega
  simp only [Lattice.checkStorage, Lattice.checkSize, if_neg narrow, if_neg few,
    if_neg small]
  rfl

/-- A request that is in order is answered on any store as on one of its
own. -/
theorem generate_eq_generateOn (session : Session) {r : Request}
    (valid : r.validate = .ok ()) (store : Density) :
    generate session r = (generateOn session r store).1 := by
  unfold generate
  rw [checkStorage_of_cells (cells_of_validate valid).2, valid]
  exact generateOn_fst session r _ store

/-! ## Places -/

/-- The places at which a program is run for a request: those of the stored
points and, for dual contouring, the neighbours of positions in the region. -/
inductive Request.Visits (r : Request) : Vec3 → Prop
  | point {p : Point} (stored : r.lattice.Contains p) :
      r.Visits (placeOf r.origin r.scale r.lattice p)
  | neighbour {position near : Vec3}
      (chosen : r.algorithm = .dualContouring)
      (member : near ∈ neighbours (r.origin + position) r.epsilon) :
      r.Visits near

/-! ## Main result -/

/-- A store is filled, unless there is no value for some place. -/
theorem ends_putAll (value : Fin n → Except ε α) (order : List (Fin n))
    (store : Vector α n) :
    Ends (fun _ => True) (fun fault => ∃ i, value i = .error fault)
      (putAll value order store) := by
  induction order generalizing store with
  | nil => trivial
  | cons i rest ih =>
    rw [putAll_cons]
    cases found : value i with
    | error fault => exact ⟨i, found⟩
    | ok v => exact ih _

/-- Densities are those of the lattice that is asked for, unless there is none
at a stored point. -/
theorem ends_sample (program : Program) (origin : Vec3) (scale : Float32)
    (lattice : Lattice) :
    Ends (fun density => density.lattice = lattice)
      (fun fault => ∃ p, lattice.Contains p ∧
        densityAt program (placeOf origin scale lattice p) = .error fault)
      (sample program origin scale lattice) := by
  have filled : Ends (fun _ => True)
      (fun fault => ∃ p, lattice.Contains p ∧
        densityAt program (placeOf origin scale lattice p) = .error fault)
      (putAll (fun i : Fin lattice.volume =>
          densityAt program (placeOf origin scale lattice (lattice.point i)))
        (List.finRange _) ((Density.blank lattice).storeFor lattice)) := by
    refine (ends_putAll _ _ _).mono_error ?_
    rintro fault ⟨i, failed⟩
    exact ⟨lattice.point i, Lattice.contains_point i.isLt, failed⟩
  exact filled.bind fun values _ => rfl

/-- A request that is in order has a surface, unless the program has no
density at a neighbour of a position. -/
theorem ends_extract {d : Density} (program : Program) {r : Request}
    {b : Buffers} (valid : r.validate = .ok ()) (sampled : d.lattice = r.lattice)
    (room : b.capacity.holds r.capacity = true) :
    Ends (fun out => out.Complete b.capacity)
      (fun e => ∃ place, r.Visits place ∧
        ∃ fault, e = .fault (.program fault) ∧
          densityAt program place = .error fault)
      (extract d program r b) := by
  have cells : d.lattice.cells = r.cells.toNat := congrArg Lattice.cells sampled
  have few : d.lattice.cells ≤ maxCells := cells ▸ (cells_of_validate valid).2
  have padding : d.lattice.padding = r.algorithm.padding :=
    congrArg Lattice.padding sampled
  rw [Request.capacity, ← cells] at room
  unfold extract
  cases chosen : r.algorithm with
  | marchingCubes =>
    rw [chosen] at room
    obtain ⟨out, made, complete, -⟩ := marchingCubes_complete few room r.level r.scale
    simp only [made]
    exact complete
  | dualContouring =>
    rw [chosen] at room padding
    refine (ends_dualContouring program r padding few room).mono_error ?_
    rintro e ⟨position, place, member, failed⟩
    exact ⟨place, .neighbour chosen member, failed⟩

/-- **What a request ends with.** One that passes the check has a mesh with
complete buffers and the generation of the session, whatever the store holds.
The only other end is that noise is not defined at a place that is visited. -/
theorem ends_generateOn (session : Session) {r : Request}
    (checked : checkInputs session.program r = .ok ()) (store : Density) :
    Ends
      (fun mesh => mesh.generation = session.generation ∧
        mesh.buffers.Complete r.capacity)
      (fun e => e = .fault (.program .noiseUndefined) ∧
        ∃ place, r.Visits place ∧
          session.program.eval [place] = .error .noiseUndefined)
      (generateOn session r store).1 := by
  obtain ⟨valid, one⟩ := checkInputs_ok_iff.mp checked
  have undefined {place : Vec3} (visited : r.Visits place)
      {fault : Program.Fault}
      (failed : densityAt session.program place = .error fault) :
      MeshError.fault (.program fault) = .fault (.program .noiseUndefined) ∧
        ∃ place, r.Visits place ∧
          session.program.eval [place] = .error .noiseUndefined := by
    obtain ⟨rfl, noValue⟩ := undefined_of_densityAt one failed
    exact ⟨rfl, place, visited, noValue⟩
  rw [generateOn_eq, checked]
  have sampled := ends_sample session.program r.origin r.scale r.lattice
  cases made : sample session.program r.origin r.scale r.lattice with
  | error fault =>
    rw [made] at sampled
    obtain ⟨p, stored, failed⟩ := sampled
    exact undefined (.point stored) failed
  | ok density =>
    rw [made] at sampled
    have room : (Buffers.blank r.capacity).capacity.holds r.capacity = true := by
      rw [Buffers.capacity_blank]
      simp [Capacity.holds]
    have ends := ends_extract session.program valid sampled room
    rw [Buffers.capacity_blank] at ends
    change Ends _ _ ((extract density session.program r (.blank r.capacity)).map _)
    cases surface : extract density session.program r (.blank r.capacity) with
    | ok out =>
      rw [surface] at ends
      exact ⟨rfl, ends⟩
    | error e =>
      rw [surface] at ends
      obtain ⟨place, visited, fault, rfl, failed⟩ := ends
      exact undefined visited failed

end FieldMesh.Mesh
