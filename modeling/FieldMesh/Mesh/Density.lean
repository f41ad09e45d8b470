import FieldMesh.Mesh.Cube
import FieldMesh.Mesh.Fault

/-!
# Densities

A number for every point of a lattice. The points are independent of each
other: what is stored for one is the value of the program there.

* `putAll`: fills places of a store one after the other; by `get_putAll`
  neither the order of the places nor what was stored before matters;
* `sampleInto`, `sample`: the densities of a program over a lattice, in a
  store that was used before or in a new one;
* `Density.value`: the density at a point, which has to be stored;
* `normalAt`: the direction in which the density falls.
-/

namespace FieldMesh.Mesh

/-! ## Filling a store -/

/-- Stores a value at each of some places, one after the other, up to the
first fault. -/
def putAll (value : Fin n → Except ε α) (order : List (Fin n))
    (store : Vector α n) : Except ε (Vector α n) :=
  order.foldlM (fun store i => do return store.set i (← value i)) store

theorem putAll_cons (value : Fin n → Except ε α) (i : Fin n)
    (order : List (Fin n)) (store : Vector α n) :
    putAll value (i :: order) store =
      match value i with
      | .error fault => .error fault
      | .ok v => putAll value order (store.set i v) := by
  rw [putAll, List.foldlM_cons]
  cases value i <;> rfl

/-- A place that was filled holds its value, and every other one what it held
before. -/
theorem get_putAll {value : Fin n → Except ε α} {order : List (Fin n)}
    {store filled : Vector α n} (done : putAll value order store = .ok filled)
    (i : Fin n) :
    (i ∈ order → value i = .ok filled[i]) ∧
      (i ∉ order → filled[i] = store[i]) := by
  induction order generalizing store with
  | nil =>
    cases done
    simp
  | cons k rest ih =>
    rw [putAll_cons] at done
    cases found : value k with
    | error fault => simp [found] at done
    | ok v =>
      rw [found] at done
      obtain ⟨put, kept⟩ := ih done
      by_cases later : i ∈ rest
      · exact ⟨fun _ => put later, fun absent =>
          absurd (List.mem_cons_of_mem k later) absent⟩
      · have held := kept later
        by_cases same : i = k
        · subst same
          refine ⟨fun _ => ?_, fun absent => absurd List.mem_cons_self absent⟩
          rw [found, held]
          simp
        · refine ⟨fun present => ?_, fun _ => ?_⟩
          · exact absurd present (by simp [same, later])
          · rw [held]
            have apart : k.val ≠ i.val := fun e => same (Fin.ext e.symm)
            simp [apart]

/-! ## Densities -/

/-- A density for every point of a lattice. -/
structure Density where
  lattice : Lattice
  values : Vector Float32 lattice.volume

namespace Density

/-- Zero everywhere. -/
def blank (lattice : Lattice) : Density := ⟨lattice, .replicate _ 0.0⟩

instance : Inhabited Density := ⟨blank ⟨1, .none⟩⟩

/-- Whether the store of a density can be used for another lattice: it has to
have as many points. -/
def fits (d : Density) (lattice : Lattice) : Bool :=
  lattice.volume == d.lattice.volume

/-- The store for another lattice. One of the same size is kept with its
numbers; another one is made with zeros. -/
def storeFor (d : Density) (lattice : Lattice) : Vector Float32 lattice.volume :=
  if same : lattice.volume = d.lattice.volume then d.values.cast same.symm
  else (blank lattice).values

/-- Changes to another lattice. -/
def reshape (d : Density) (lattice : Lattice) : Density :=
  ⟨lattice, d.storeFor lattice⟩

/-- The density at a point. -/
def value (d : Density) (p : Point) : Except Fault Float32 :=
  if stored : d.lattice.Contains p then
    have := Lattice.index_lt_volume stored
    .ok d.values[d.lattice.index p]
  else .error (.outside p d.lattice.side)

/-- The densities at the corners of a cell. -/
def corners (d : Density) (cell : Point) : Except Fault Corners :=
  Vector.ofFnM fun c : Corner => d.value (cell + c.offset)

end Density

/-! ## Sampling -/

/-- The size of a cell. -/
def cellSize (scale : Float32) (cells : Nat) : Float32 :=
  scale / .ofNat cells

/-- The density of a program at a place: the first component of its value. -/
def densityAt (program : Program) (place : Vec3) :
    Except Program.Fault Float32 :=
  (program.eval [place]).map Vec3.x

/-- The place of a point, for a region at `origin` that is `scale` wide. -/
def placeOf (origin : Vec3) (scale : Float32) (lattice : Lattice)
    (point : Point) : Vec3 :=
  origin + point.toVec3.scale (cellSize scale lattice.cells)

/-- The densities of a program over a lattice, in a store that was used
before. -/
def sampleInto (program : Program) (origin : Vec3) (scale : Float32)
    (lattice : Lattice) (store : Density) : Except Program.Fault Density := do
  let density (i : Fin lattice.volume) :=
    densityAt program (placeOf origin scale lattice (lattice.point i))
  let values ← putAll density (List.finRange _) (store.storeFor lattice)
  return ⟨lattice, values⟩

/-- The densities of a program over a lattice. -/
def sample (program : Program) (origin : Vec3) (scale : Float32)
    (lattice : Lattice) : Except Program.Fault Density :=
  sampleInto program origin scale lattice (.blank lattice)

/-- The direction in which the density falls at a place, from central
differences. Where the density is positive inside, it points outwards. -/
def normalAt (program : Program) (place : Vec3) (epsilon : Float32) :
    Except Program.Fault Vec3 := do
  let fall (axis : Vec3) : Except Program.Fault Float32 := do
    let before ← densityAt program (place - axis.scale epsilon)
    let after ← densityAt program (place + axis.scale epsilon)
    return before - after
  let falls : Vec3 :=
    ⟨← fall ⟨1.0, 0.0, 0.0⟩, ← fall ⟨0.0, 1.0, 0.0⟩, ← fall ⟨0.0, 0.0, 1.0⟩⟩
  return (falls.shrink epsilon).normalizeOrZero

end FieldMesh.Mesh
