import FieldMesh.Noise.Field
import FieldMesh.Program.Basic

/-!
# Running programs

A machine runs programs on a stack of vectors. It can be used for any number
of programs, one after the other.

* `Opcode.apply`: what an operation does to the top of the stack;
* `Machine.execute`: one instruction;
* `Machine.run`: a whole program.

Operands are pushed from right to left, so the one on top is the leftmost.
-/

namespace FieldMesh.Program

/-! ## Faults -/

/-- Why a run stops without a result. A checked program with enough
parameters can only stop because noise is not defined somewhere. -/
inductive Fault where
  | missingParameters (needed supplied : Nat)
  | noSuchParameter (index supplied : Nat)
  | loadOutside (slot depth : Nat)
  | underflow
  | overflow (limit : Nat)
  | invalidOpcode
  | finalDepth (depth expected : Nat)
  /-- Noise at a place that is not a number or lies too far out. -/
  | noiseUndefined
  deriving DecidableEq, Repr

/-- The wording of a fault. -/
def Fault.message : Fault → String
  | .missingParameters needed supplied =>
    "program reads " ++ toString needed ++ " parameters, " ++
      toString supplied ++ " supplied"
  | .noSuchParameter index supplied =>
    "parameter " ++ toString index ++ " of " ++ toString supplied
  | .loadOutside slot depth =>
    "load of slot " ++ toString slot ++ " with stack depth " ++ toString depth
  | .underflow => "stack underflow"
  | .overflow limit =>
    "stack overflow: program declared max depth " ++ toString limit
  | .invalidOpcode => "invalid opcode in program"
  | .finalDepth depth expected =>
    "final stack depth " ++ toString depth ++ " instead of " ++
      toString expected
  | .noiseUndefined => "noise is not defined at this place"

/-! ## Operations -/

/-- The signed distance of a place from a box around the origin. -/
def boxDistance (p halfExtents : Vec3) : Float32 :=
  let q := p.abs - halfExtents
  (q.greatest Vec3.zero).length + Scalar.least q.maxElement 0.0

/-- The vector of a noise value, which has to be defined. -/
def noise (value : Option Float32) : Except Fault Vec3 :=
  match value with
  | some n => .ok (.splat n)
  | none => .error .noiseUndefined

/-- Applies an operation to the operands on top of a stack and gives the
result with what is left below them. -/
def Opcode.apply : Opcode → List Vec3 → Except Fault (Vec3 × List Vec3)
  | .negate, a :: rest => .ok (-a, rest)
  | .x, a :: rest => .ok (.splat a.x, rest)
  | .y, a :: rest => .ok (.splat a.y, rest)
  | .z, a :: rest => .ok (.splat a.z, rest)
  | .sin, a :: rest => .ok (a.map Scalar.sin, rest)
  | .cos, a :: rest => .ok (a.map Scalar.cos, rest)
  | .tan, a :: rest => .ok (a.map Scalar.tan, rest)
  | .abs, a :: rest => .ok (a.abs, rest)
  | .sqrt, a :: rest => .ok (a.map Float32.sqrt, rest)
  | .saturate, a :: rest => .ok (a.clamp .zero (.splat 1.0), rest)
  | .valueNoise, a :: rest => do return (← noise (Noise.valueAt a), rest)
  | .gradientNoise, a :: rest => do return (← noise (Noise.gradientAt a), rest)
  | .simplexNoise, a :: rest => do return (← noise (Noise.simplexAt a), rest)
  | .rotatingNoise, a :: rest => .ok (Noise.rotating a, rest)
  | .fractal, a :: rest => do
    return (← noise (Noise.fractal a 1.0 5 0.4), rest)
  | .splat, a :: rest => .ok (.splat a.x, rest)
  | .add, a :: b :: rest => .ok (a + b, rest)
  | .sub, a :: b :: rest => .ok (a - b, rest)
  | .mul, a :: b :: rest => .ok (a * b, rest)
  | .div, a :: b :: rest => .ok (a / b, rest)
  | .mod, a :: b :: rest => .ok (a % b, rest)
  | .min, a :: b :: rest => .ok (a.least b, rest)
  | .max, a :: b :: rest => .ok (a.greatest b, rest)
  | .pow, a :: b :: rest => .ok (a.zipWith Scalar.pow b, rest)
  | .dist, a :: b :: rest => .ok (.splat (a - b).length, rest)
  | .squaredDist, a :: b :: rest => .ok (.splat (a - b).squaredLength, rest)
  | .box, a :: b :: rest => .ok (.splat (boxDistance a b), rest)
  | .vector, a :: b :: c :: rest => .ok (⟨a.x, b.x, c.x⟩, rest)
  | .fractalDetailed, a :: b :: c :: d :: rest => do
    return (← noise (Noise.fractal a b.x (Binary32.truncate c.x) d.x), rest)
  | .invalid, _ => .error .invalidOpcode
  | _, _ => .error .underflow

/-! ## The machine -/

/-- A machine with what earlier runs left on its stack, top first. -/
structure Machine where
  stack : List Vec3 := []

namespace Machine

/-- What an instruction pushes, and what it leaves of the stack. -/
def value (parameters : List Vec3) (stack : List Vec3) (i : Instruction) :
    Except Fault (Vec3 × List Vec3) :=
  match i.opcode with
  | .const => .ok (i.immediate, stack)
  | .param =>
    match parameters[i.slot.toNat]? with
    | some v => .ok (v, stack)
    | none => .error (.noSuchParameter i.slot.toNat parameters.length)
  | .load =>
    let slot := i.slot.toNat
    if slot = 0 then .error (.loadOutside slot stack.length)
    else match stack.reverse[slot - 1]? with
      | some v => .ok (v, stack)
      | none => .error (.loadOutside slot stack.length)
  | opcode => opcode.apply stack

/-- Executes an instruction on a stack that may not grow beyond a limit. -/
def execute (parameters : List Vec3) (limit : Nat) (stack : List Vec3)
    (i : Instruction) : Except Fault (List Vec3) := do
  let (v, rest) ← value parameters stack i
  if rest.length < limit then return v :: rest
  else .error (.overflow limit)

/-- Executes instructions one after the other, up to the first fault. Gives
the fault, if there is one, and the stack. -/
def executeAll (parameters : List Vec3) (limit : Nat) :
    List Instruction → List Vec3 → Option Fault × List Vec3
  | [], stack => (none, stack)
  | i :: rest, stack =>
    match execute parameters limit stack i with
    | .error fault => (some fault, stack)
    | .ok next => executeAll parameters limit rest next

/-- Runs a program on an empty stack. The result is the entry on top. -/
def run (machine : Machine) (program : Program) (parameters : List Vec3) :
    Except Fault Vec3 × Machine :=
  if parameters.length < program.parameterCount then
    (.error (.missingParameters program.parameterCount parameters.length),
      machine)
  else
    match executeAll parameters program.peakDepth program.instructions [] with
    | (some fault, stack) => (.error fault, ⟨stack⟩)
    | (none, stack) =>
      if stack.length = program.finalDepth then
        (.ok (stack.head?.getD Vec3.zero), ⟨stack⟩)
      else (.error (.finalDepth stack.length program.finalDepth), ⟨stack⟩)

end Machine

end FieldMesh.Program

namespace FieldMesh.Program

/-- The result of a program on a machine of its own. -/
def eval (program : Program) (parameters : List Vec3) : Except Fault Vec3 :=
  (Machine.run {} program parameters).1

end FieldMesh.Program
