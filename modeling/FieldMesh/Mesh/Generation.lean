import FieldMesh.Formula.Live
import FieldMesh.Mesh.DualContouring

/-!
# Generating meshes

A request is checked, the published program is sampled, and the surface is
written into buffers. A store of densities can be used for one request after
the other.

* `generateInto`: samples and writes with a given store and given buffers;
* `generateOn`: the mesh of a request, with a given store;
* `generate`: the mesh of a request.

A request that is refused leaves the store as it was.
-/

namespace FieldMesh.Mesh

open FieldMesh.Formula

/-- The surface of sampled densities. -/
def extract (density : Density) (program : Program) (r : Request)
    (b : Buffers) : Except MeshError Buffers :=
  match r.algorithm with
  | .marchingCubes => marchingCubes density r.level r.scale b
  | .dualContouring => dualContouring density program r b

/-- Refuses what cannot be meshed: first for the request, then for the
program. -/
def checkInputs (program : Program) (r : Request) : Except MeshError Unit := do
  r.validate
  if 1 < program.parameterCount then
    throw (.unsupportedParameters program.parameterCount)

/-- Samples a program for a request and writes the surface. The second part
is the store with the densities; a program that stops with a fault leaves
nothing new in it. -/
def generateInto (program : Program) (r : Request) (store : Density)
    (b : Buffers) : Except MeshError Buffers × Density :=
  match checkInputs program r with
  | .error e => (.error e, store)
  | .ok () =>
    match sampleInto program r.origin r.scale r.lattice store with
    | .error fault => (.error (.fault (.program fault)), store.reshape r.lattice)
    | .ok density => (extract density program r b, density)

/-- A mesh with the generation of the program it was made from, which is
counted without a bound. -/
structure GeneratedMesh where
  buffers : Buffers
  generation : Nat

/-- The mesh of a request from the published program, with a given store. -/
def generateOn (session : Session) (r : Request) (store : Density) :
    Except MeshError GeneratedMesh × Density :=
  match r.validate with
  | .error e => (.error e, store)
  | .ok () =>
    let (program, generation) := session.snapshot
    let (result, store) :=
      generateInto program r store (.blank r.capacity)
    (result.map fun buffers => ⟨buffers, generation⟩, store)

/-- The mesh of a request from the published program, with a store of its
own. A lattice whose sizes do not fit the machine is a fault. -/
def generate (session : Session) (r : Request) :
    Except MeshError GeneratedMesh :=
  match r.lattice.checkStorage with
  | .error fault => .error (.fault (.size fault))
  | .ok () =>
    match r.validate with
    | .error e => .error e
    | .ok () => (generateOn session r (.blank r.lattice)).1

/-- The meshes of several requests, each on its own. -/
def generateAll (session : Session) (requests : List Request) :
    List (Except MeshError GeneratedMesh) :=
  requests.map (generate session)

/-- Compiles a formula and publishes it for meshing. -/
def openSession (formula : Formula) : Except MeshError Session × Formula :=
  let (session, formula) := Session.ofFormula formula
  (session.mapError .formula, formula)

end FieldMesh.Mesh
