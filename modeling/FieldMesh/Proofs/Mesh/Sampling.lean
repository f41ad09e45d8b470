import Mathlib.Logic.Function.Basic
import FieldMesh.Proofs.Mesh.Generation

/-!
# Sampling stores the field

The density that is stored for a point is the value of the program there, and
nothing else: not what the store held, not the order in which its places are
filled, not the machines that are run for them, and not the border around the
region.

* `Crew.fillAll`: several machines fill a store together, each with what its
  earlier runs left on its stack;
* `putAll_eq_of_covers`: every order that leaves no place out fills a store
  alike;
* `ends_sampleInto`: what is stored, or where the program has no value;
* `marchingCubes_congr`: marching cubes only looks at the points of the region;
* **main result**: `sampleInto_stores_field`.
-/

namespace FieldMesh.Mesh

/-! ## Machines at work -/

/-- Machines that fill a store together. -/
structure Crew (n : Nat) where
  /-- The machines by their numbers, with what their runs have left behind. -/
  machines : Nat → Program.Machine
  store : Vector Float32 n

namespace Crew

variable {n : Nat} (program : Program) (place : Fin n → Vec3)

/-- One of the machines is run for one place of the store. -/
def fill (crew : Crew n) (task : Nat × Fin n) :
    Except Program.Fault (Crew n) :=
  let (result, machine) :=
    (crew.machines task.1).run program [place task.2]
  result.map fun v =>
    ⟨Function.update crew.machines task.1 machine, crew.store.set task.2 v.x⟩

/-- The machines are run one task after the other, up to the first fault. -/
def fillAll (crew : Crew n) (tasks : List (Nat × Fin n)) :
    Except Program.Fault (Crew n) :=
  tasks.foldlM (fill program place) crew

end Crew

/-- The result of a run does not depend on what earlier runs left behind. -/
theorem run_fst (machine : Program.Machine) (program : Program)
    (parameters : List Vec3) :
    (machine.run program parameters).1 = program.eval parameters := by
  unfold Program.eval Program.Machine.run
  split
  · rfl
  · cases Program.Machine.executeAll parameters program.peakDepth
      program.instructions [] with
    | mk fault stack =>
      cases fault with
      | some fault => rfl
      | none => by_cases final : stack.length = program.finalDepth <;> simp [final]

/-- Whichever machines are run, the store is filled with densities in the order
of the tasks. -/
theorem Crew.fillAll_eq (program : Program) (place : Fin n → Vec3)
    (tasks : List (Nat × Fin n)) (crew : Crew n) :
    (crew.fillAll program place tasks).map Crew.store =
      putAll (fun i => densityAt program (place i)) (tasks.map Prod.snd)
        crew.store := by
  induction tasks generalizing crew with
  | nil => rfl
  | cons task rest ih =>
    have ran := run_fst (crew.machines task.1) program [place task.2]
    rw [List.map_cons, putAll_cons, fillAll, List.foldlM_cons, densityAt, ← ran]
    unfold fill
    cases (crew.machines task.1).run program [place task.2] with
    | mk result machine =>
      cases result with
      | error fault => rfl
      | ok v => exact ih _

/-! ## Orders -/

/-- All orders that leave no place out fill a store alike, if only one fault is
possible. -/
theorem putAll_eq_of_covers {value : Fin n → Except ε α} (fault : ε)
    (only : ∀ i e, value i = .error e → e = fault) {order other : List (Fin n)}
    (covers : ∀ i, i ∈ order) (covers' : ∀ i, i ∈ other)
    (store store' : Vector α n) :
    putAll value order store = putAll value other store' := by
  have ends := ends_putAll value order store
  have ends' := ends_putAll value other store'
  cases done : putAll value order store with
  | ok filled =>
    have held (i : Fin n) : value i = .ok filled[i] :=
      (get_putAll done i).1 (covers i)
    cases done' : putAll value other store' with
    | ok filled' =>
      refine congrArg Except.ok (Vector.ext fun i inside => ?_)
      have held' := (get_putAll done' ⟨i, inside⟩).1 (covers' ⟨i, inside⟩)
      exact Except.ok.inj ((held ⟨i, inside⟩).symm.trans held')
    | error e =>
      rw [done'] at ends'
      obtain ⟨i, failed⟩ := ends'
      cases (held i).symm.trans failed
  | error e =>
    rw [done] at ends
    obtain ⟨i, failed⟩ := ends
    cases done' : putAll value other store' with
    | ok filled' =>
      have held' := (get_putAll done' i).1 (covers' i)
      cases failed.symm.trans held'
    | error e' =>
      rw [done'] at ends'
      obtain ⟨j, failed'⟩ := ends'
      rw [only i e failed, only j e' failed']

/-! ## Stored densities -/

section

variable {program : Program} {origin : Vec3} {scale : Float32}

/-- The density of a program is the first component of its value. -/
theorem eval_of_densityAt {place : Vec3} {x : Float32}
    (found : densityAt program place = .ok x) :
    ∃ v, program.eval [place] = .ok v ∧ v.x = x := by
  unfold densityAt at found
  cases value : program.eval [place] with
  | error fault =>
    rw [value] at found
    cases found
  | ok v =>
    rw [value] at found
    exact ⟨v, rfl, Except.ok.inj found⟩

/-- Sampling fills the places of a store in order. -/
theorem sampleInto_eq (program : Program) (origin : Vec3) (scale : Float32)
    (lattice : Lattice) (store : Density) :
    sampleInto program origin scale lattice store =
      (putAll (fun i => densityAt program
          (placeOf origin scale lattice (lattice.point i)))
        (List.finRange _) (store.storeFor lattice)).map (⟨lattice, ·⟩) := by
  simp only [sampleInto]
  cases putAll (fun i => densityAt program
    (placeOf origin scale lattice (lattice.point i)))
    (List.finRange _) (store.storeFor lattice) <;> rfl

/-- What is stored for a point is the density there. -/
theorem value_of_sampleInto {lattice : Lattice} {store d : Density}
    (sampled : sampleInto program origin scale lattice store = .ok d) :
    d.lattice = lattice ∧ ∀ c, lattice.Contains c →
      ∃ x, densityAt program (placeOf origin scale lattice c) = .ok x ∧
        d.value c = .ok x := by
  rw [sampleInto_eq] at sampled
  cases filled : putAll (fun i => densityAt program
      (placeOf origin scale lattice (lattice.point i)))
      (List.finRange _) (store.storeFor lattice) with
  | error fault =>
    rw [filled] at sampled
    cases sampled
  | ok values =>
    rw [filled] at sampled
    cases sampled
    refine ⟨rfl, fun c stored => ?_⟩
    have inside := Lattice.index_lt_volume stored
    have held := (get_putAll filled ⟨lattice.index c, inside⟩).1
      (List.mem_finRange _)
    rw [Lattice.point_index stored] at held
    exact ⟨_, held, dif_pos stored⟩

/-- The places of a store are filled with the densities at all points, unless
noise is not defined at one of them. -/
theorem ends_sampleInto (one : program.parameterCount ≤ 1) (origin : Vec3)
    (scale : Float32) (lattice : Lattice) (store : Density) :
    Ends
      (fun d => d.lattice = lattice ∧ ∀ c, lattice.Contains c →
        ∃ v, program.eval [placeOf origin scale lattice c] = .ok v ∧
          d.value c = .ok v.x)
      (fun fault => fault = .noiseUndefined ∧ ∃ c, lattice.Contains c ∧
        program.eval [placeOf origin scale lattice c] = .error .noiseUndefined)
      (sampleInto program origin scale lattice store) := by
  cases sampled : sampleInto program origin scale lattice store with
  | error fault =>
    have ends := ends_sample program origin scale lattice
    rw [← sampleInto_eq_sample program origin scale lattice store,
      sampled] at ends
    obtain ⟨c, stored, failed⟩ := ends
    obtain ⟨rfl, undefined⟩ := undefined_of_densityAt one failed
    exact ⟨rfl, c, stored, undefined⟩
  | ok d =>
    obtain ⟨same, held⟩ := value_of_sampleInto sampled
    refine ⟨same, fun c stored => ?_⟩
    obtain ⟨x, density, read⟩ := held c stored
    obtain ⟨v, value, rfl⟩ := eval_of_densityAt density
    exact ⟨v, value, read⟩

end

/-! ## Borders -/

/-- Marching cubes only looks at the points of the region. -/
theorem marchingCubes_congr {d d' : Density}
    (cells : d.lattice.cells = d'.lattice.cells)
    (same : ∀ c, Lattice.Contains ⟨d.lattice.cells, .none⟩ c →
      d.value c = d'.value c) (level scale : Float32) (b : Buffers) :
    marchingCubes d level scale b = marchingCubes d' level scale b := by
  have corners (cell : Point) (isCell : cell.IsCell d.lattice.cells) :
      d.corners cell = d'.corners cell := by
    refine congrArg Vector.ofFnM (funext fun c => same _ ?_)
    exact Lattice.contains_corner (l := ⟨d.lattice.cells, .none⟩) isCell c
  have walked (size : Float32) (start : Buffers) :
      walk d.lattice.cells (addCell d level size) start =
        walk d.lattice.cells (addCell d' level size) start := by
    have each (cell : Point) (isCell : cell.IsCell d.lattice.cells)
        (buffers : Buffers) :
        addCell d level size buffers cell =
          [cell].foldlM (addCell d' level size) buffers := by
      rw [List.foldlM_cons, addCell, addCell, corners cell isCell]
      simp
    rw [walk_eq_foldlM each, List.flatMap_singleton', walk_eq]
  rw [cells] at walked
  simp only [marchingCubes, cells, walked]

/-! ## Main result -/

section

variable {program : Program} {origin : Vec3} {scale : Float32} {cells : Nat}

/-- Any machines fill a store as sampling does, in any order that leaves no
point out. -/
theorem fillAll_eq_sampleInto (one : program.parameterCount ≤ 1)
    {lattice : Lattice} (crew : Crew lattice.volume)
    {tasks : List (Nat × Fin lattice.volume)}
    (covers : ∀ i, i ∈ tasks.map Prod.snd) (store : Density) :
    (crew.fillAll program
        (fun i => placeOf origin scale lattice (lattice.point i)) tasks).map
        (fun crew => (⟨lattice, crew.store⟩ : Density)) =
      sampleInto program origin scale lattice store := by
  have filled := crew.fillAll_eq program
    (fun i => placeOf origin scale lattice (lattice.point i)) tasks
  have every : ∀ i, i ∈ List.finRange lattice.volume := List.mem_finRange
  rw [putAll_eq_of_covers .noiseUndefined
    (fun i e failed => (undefined_of_densityAt one failed).1) covers every _
    (store.storeFor lattice)] at filled
  rw [sampleInto_eq, ← filled]
  cases crew.fillAll program
    (fun i => placeOf origin scale lattice (lattice.point i)) tasks <;> rfl

/-- What can be sampled with a border can be sampled without it, and the
densities in the region are the same. -/
theorem sampleInto_unpadded (one : program.parameterCount ≤ 1)
    {store padded : Density}
    (sampled : sampleInto program origin scale ⟨cells, .gradient⟩ store =
      .ok padded) (store' : Density) :
    ∃ bare, sampleInto program origin scale ⟨cells, .none⟩ store' = .ok bare ∧
      bare.lattice = ⟨cells, .none⟩ ∧
      ∀ c, Lattice.Contains ⟨cells, .none⟩ c →
        padded.value c = bare.value c := by
  obtain ⟨-, held⟩ := value_of_sampleInto sampled
  have wider {c : Point} (stored : Lattice.Contains ⟨cells, .none⟩ c) :
      Lattice.Contains ⟨cells, .gradient⟩ c := by
    simp only [Lattice.Contains, Lattice.Within, Lattice.border,
      Padding.border] at stored ⊢
    omega
  have ends := ends_sampleInto one origin scale ⟨cells, .none⟩ store'
  cases made : sampleInto program origin scale ⟨cells, .none⟩ store' with
  | error fault =>
    -- a point without a density would be one of those with the border
    rw [made] at ends
    obtain ⟨-, c, stored, undefined⟩ := ends
    obtain ⟨x, density, -⟩ := held c (wider stored)
    obtain ⟨v, value, -⟩ := eval_of_densityAt density
    cases value.symm.trans undefined
  | ok bare =>
    obtain ⟨same, held'⟩ := value_of_sampleInto made
    refine ⟨bare, rfl, same, fun c stored => ?_⟩
    obtain ⟨x, density, read⟩ := held c (wider stored)
    obtain ⟨x', density', read'⟩ := held' c stored
    rw [read, read', Except.ok.inj (density.symm.trans density')]

/-- **Sampling stores the field, whatever the padding.** Let a program read at
most one parameter. Whatever the store held before, the density at a point that
the lattice contains is then the first component of the program's value at its
place, `origin + c * (scale / cells)`; only a place where noise is not defined
stops this. Machines that have been used before fill a store alike, in any
order and however the points are divided among them. The densities in the
region are the same with a border as without, and so is everything that marching
cubes does with them. -/
theorem sampleInto_stores_field (one : program.parameterCount ≤ 1)
    (origin : Vec3) (scale : Float32) (cells : Nat) :
    let place (c : Point) : Vec3 :=
      origin + c.toVec3.scale (scale / .ofNat cells)
    (∀ (padding : Padding) (store : Density),
      let lattice : Lattice := ⟨cells, padding⟩
      let sampled := sampleInto program origin scale lattice store
      (match sampled with
        | .ok d => d.lattice = lattice ∧ ∀ c, lattice.Contains c →
          ∃ v, program.eval [place c] = .ok v ∧ d.value c = .ok v.x
        | .error fault => fault = .noiseUndefined ∧ ∃ c, lattice.Contains c ∧
          program.eval [place c] = .error .noiseUndefined) ∧
      ∀ (crew : Crew lattice.volume) (tasks : List (Nat × Fin lattice.volume)),
        (∀ i, i ∈ tasks.map Prod.snd) →
        (crew.fillAll program (fun i => place (lattice.point i)) tasks).map
          (fun crew => (⟨lattice, crew.store⟩ : Density)) = sampled) ∧
    ∀ store store' padded : Density,
      sampleInto program origin scale ⟨cells, .gradient⟩ store = .ok padded →
      ∃ bare, sampleInto program origin scale ⟨cells, .none⟩ store' = .ok bare ∧
        (∀ c, Lattice.Contains ⟨cells, .none⟩ c →
          padded.value c = bare.value c) ∧
        ∀ level scale b, marchingCubes padded level scale b =
          marchingCubes bare level scale b := by
  intro place
  refine ⟨fun padding store => ⟨?_, fun crew tasks covers => ?_⟩,
    fun store store' padded sampled => ?_⟩
  · have ends := ends_sampleInto one origin scale ⟨cells, padding⟩ store
    cases made : sampleInto program origin scale ⟨cells, padding⟩ store with
    | ok d =>
      rw [made] at ends
      exact ends
    | error fault =>
      rw [made] at ends
      exact ends
  · exact fillAll_eq_sampleInto one crew covers store
  · obtain ⟨bare, made, lattice, same⟩ := sampleInto_unpadded one sampled store'
    obtain ⟨lattice', -⟩ := value_of_sampleInto sampled
    refine ⟨bare, made, same, fun level scale b => ?_⟩
    have equal : padded.lattice.cells = bare.lattice.cells := by
      rw [lattice, lattice']
    refine marchingCubes_congr equal (fun c stored => same c ?_) level scale b
    rwa [lattice'] at stored

end

/-- The program whose value is the place itself. -/
def placeProgram : Program := ⟨[.param 0], ⟨1, 1, 1⟩, by decide⟩

/-- Two machines with rests on their stacks fill a cell with a border, the last
point first. -/
theorem sampleInto_stores_field_backwards :
    let lattice : Lattice := ⟨1, .gradient⟩
    let store : Density := ⟨lattice, .replicate _ 7.0⟩
    let machine : Program.Machine := ⟨[.splat 3.0, .splat 5.0]⟩
    let crew : Crew lattice.volume := ⟨fun _ => machine, .replicate _ 7.0⟩
    let tasks := (List.finRange lattice.volume).reverse.map fun i => (i.val % 2, i)
    ∃ padded bare,
      sampleInto placeProgram .zero 1.0 lattice store = .ok padded ∧
      padded.value ⟨-1, 0, 2⟩ = .ok (-1.0) ∧
      (crew.fillAll placeProgram
        (fun i => Vec3.zero + (lattice.point i).toVec3.scale (1.0 / .ofNat 1))
        tasks).map (fun crew => (⟨lattice, crew.store⟩ : Density)) = .ok padded ∧
      sampleInto placeProgram .zero 1.0 ⟨1, .none⟩ store = .ok bare ∧
      padded.value ⟨1, 0, 1⟩ = bare.value ⟨1, 0, 1⟩ := by
  intro lattice store machine crew tasks
  have one : placeProgram.parameterCount ≤ 1 := Nat.le_refl 1
  have covers (i : Fin lattice.volume) : i ∈ tasks.map Prod.snd := by
    simp [tasks]
  obtain ⟨field, borders⟩ := sampleInto_stores_field one .zero 1.0 1
  obtain ⟨ends, ordered⟩ := field .gradient store
  have filled := ordered crew tasks covers
  cases sampled : sampleInto placeProgram .zero 1.0 lattice store with
  | error fault =>
    rw [sampled] at ends
    obtain ⟨-, c, -, undefined⟩ := ends
    cases undefined
  | ok padded =>
    rw [sampled] at ends filled
    obtain ⟨bare, made, same, -⟩ := borders store store padded sampled
    obtain ⟨v, value, read⟩ := ends.2 ⟨-1, 0, 2⟩ (by decide)
    have left : v.x = -1.0 := by
      cases value
      decide +kernel
    exact ⟨padded, bare, rfl, left ▸ read, filled, made,
      same ⟨1, 0, 1⟩ (by decide)⟩

end FieldMesh.Mesh
