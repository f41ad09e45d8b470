/-!
# Operations

The operations of stack programs: how many operands each takes, under which
name a formula calls it, and how listings and documents spell it.

* `Opcode.ofCode?`: operations by number, in the order of `Opcode.all`;
* `Opcode.ofDocumentName?_documentName`: the spelling in documents reads
  back.
-/

namespace FieldMesh.Program

/-- An operation of a stack program. Its result is always one vector. -/
inductive Opcode where
  /-- Never part of a valid program. -/
  | invalid
  /-- The vector that the instruction holds. -/
  | const
  /-- A parameter. -/
  | param
  /-- A result further down the stack. -/
  | load
  | negate
  | x
  | y
  | z
  | sin
  | cos
  | tan
  | abs
  | sqrt
  | saturate
  | valueNoise
  | gradientNoise
  | simplexNoise
  | rotatingNoise
  | fractal
  | splat
  | add
  | sub
  | mul
  | div
  | mod
  | min
  | max
  | pow
  | dist
  | squaredDist
  | box
  | vector
  | fractalDetailed
  deriving DecidableEq, Repr

namespace Opcode

/-- Every operation, by ascending number of operands. -/
def all : List Opcode := [
  .invalid, .const, .param, .load, .negate, .x, .y, .z, .sin, .cos, .tan,
  .abs, .sqrt, .saturate, .valueNoise, .gradientNoise, .simplexNoise,
  .rotatingNoise, .fractal, .splat, .add, .sub, .mul, .div, .mod, .min,
  .max, .pow, .dist, .squaredDist, .box, .vector, .fractalDetailed]

/-- The operation with a number. -/
def ofCode? (code : UInt8) : Option Opcode := all[code.toNat]?

/-- The number of operands. -/
def arity : Opcode → Nat
  | .invalid | .const | .param | .load => 0
  | .negate | .x | .y | .z | .sin | .cos | .tan | .abs | .sqrt
  | .saturate | .valueNoise | .gradientNoise | .simplexNoise
  | .rotatingNoise | .fractal | .splat => 1
  | .add | .sub | .mul | .div | .mod | .min | .max | .pow | .dist
  | .squaredDist | .box => 2
  | .vector => 3
  | .fractalDetailed => 4

/-- The name under which formulas call an operation. Operations that share a
name differ in the number of operands. -/
def function? : Opcode → Option String
  | .invalid | .const | .param | .load => none
  | .negate => some "neg"
  | .x => some "x"
  | .y => some "y"
  | .z => some "z"
  | .sin => some "sin"
  | .cos => some "cos"
  | .tan => some "tan"
  | .abs => some "abs"
  | .sqrt => some "sqrt"
  | .saturate => some "saturate"
  | .valueNoise => some "vnoise"
  | .gradientNoise => some "cnoise"
  | .simplexNoise => some "snoise"
  | .rotatingNoise => some "srdnoise"
  | .fractal => some "fbm"
  | .splat => some "v3"
  | .add => some "add"
  | .sub => some "sub"
  | .mul => some "mul"
  | .div => some "div"
  | .mod => some "mod"
  | .min => some "min"
  | .max => some "max"
  | .pow => some "pow"
  | .dist => some "dist"
  | .squaredDist => some "sqdist"
  | .box => some "box"
  | .vector => some "v3"
  | .fractalDetailed => some "fbm"

/-- The spelling in listings. -/
def mnemonic : Opcode → String
  | .invalid => "invalid"
  | .const => "const"
  | .param => "param"
  | .load => "load"
  | .negate => "neg"
  | .x => "x"
  | .y => "y"
  | .z => "z"
  | .sin => "sin"
  | .cos => "cos"
  | .tan => "tan"
  | .abs => "abs"
  | .sqrt => "sqrt"
  | .saturate => "saturate"
  | .valueNoise => "vnoise"
  | .gradientNoise => "cnoise"
  | .simplexNoise => "snoise"
  | .rotatingNoise => "srdnoise"
  | .fractal => "fbm1"
  | .splat => "splat"
  | .add => "add"
  | .sub => "sub"
  | .mul => "mul"
  | .div => "div"
  | .mod => "mod"
  | .min => "min"
  | .max => "max"
  | .pow => "pow"
  | .dist => "dist"
  | .squaredDist => "sqdist"
  | .box => "box"
  | .vector => "v3"
  | .fractalDetailed => "fbm4"

/-- The spelling in documents. -/
def documentName : Opcode → String
  | .invalid => "invalid"
  | .const => "const"
  | .param => "param"
  | .load => "load"
  | .negate => "negate"
  | .x => "x"
  | .y => "y"
  | .z => "z"
  | .sin => "sin"
  | .cos => "cos"
  | .tan => "tan"
  | .abs => "abs"
  | .sqrt => "sqrt"
  | .saturate => "saturate"
  | .valueNoise => "value_noise"
  | .gradientNoise => "perlin_noise"
  | .simplexNoise => "simplex_noise"
  | .rotatingNoise => "rotating_noise"
  | .fractal => "fbm"
  | .splat => "splat"
  | .add => "add"
  | .sub => "sub"
  | .mul => "mul"
  | .div => "div"
  | .mod => "mod"
  | .min => "min"
  | .max => "max"
  | .pow => "pow"
  | .dist => "dist"
  | .squaredDist => "sq_dist"
  | .box => "box"
  | .vector => "vec3"
  | .fractalDetailed => "fbm_detailed"

/-- The operation that a document spells so. -/
def ofDocumentName? (name : String) : Option Opcode :=
  all.find? (·.documentName == name)

theorem mem_all (op : Opcode) : op ∈ all := by
  cases op <;> decide

theorem ofDocumentName?_documentName (op : Opcode) :
    ofDocumentName? op.documentName = some op := by
  cases op <;> decide

end Opcode

end FieldMesh.Program
