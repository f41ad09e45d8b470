import FieldMesh.Decimal.Text
import FieldMesh.Program.Opcode
import FieldMesh.Vector

/-!
# Programs

A program is a list of instructions that has been checked once: followed
through, it never takes more operands than there are, never copies an entry
that is not there, and ends at a known height of the stack. The check also
finds the greatest height and how many parameters are read.

* `scan`: follows the heights through a list of instructions;
* `check`: what makes a list of instructions a program;
* `Program.ofInstructions`: the only way to build a program from arbitrary
  instructions.
-/

namespace FieldMesh.Program

/-! ## Instructions -/

/-- An operation with what it holds. Only `const` uses the vector; only
`param` and `load` use the slot. -/
structure Instruction where
  opcode : Opcode
  /-- The vector that `const` pushes. -/
  immediate : Vec3 := Vec3.zero
  /-- The position of the parameter that `param` pushes, or the height of
  the stack entry, counted from one, that `load` copies. -/
  slot : UInt8 := 0
  deriving DecidableEq

namespace Instruction

/-- Pushes a vector. -/
def const (value : Vec3) : Instruction := { opcode := .const, immediate := value }

/-- Pushes a parameter. -/
def param (index : UInt8) : Instruction := { opcode := .param, slot := index }

/-- Pushes a copy of a stack entry. -/
def load (slot : UInt8) : Instruction := { opcode := .load, slot }

/-- Applies an operation to the operands on the stack. -/
def op (opcode : Opcode) : Instruction := { opcode }

end Instruction

/-! ## Faults -/

/-- What is wrong with a list of instructions. -/
inductive ProgramFault where
  | empty
  | invalidOpcode (position : Nat)
  /-- A copy of an entry that is not on the stack. -/
  | loadOutside (slot position depth : Nat)
  /-- More operands than entries. -/
  | underflow (position : Nat) (opcode : Opcode) (depth : Nat)
  /-- The program ends at another height than expected. -/
  | finalDepth (depth expected : Nat)
  deriving DecidableEq, Repr

/-- The wording of a fault. -/
def ProgramFault.message : ProgramFault → String
  | .empty => "no instructions"
  | .invalidOpcode position => "invalid opcode at " ++ toString position
  | .loadOutside slot position depth =>
    "load of slot " ++ toString slot ++ " at " ++ toString position ++
      " with stack depth " ++ toString depth
  | .underflow position opcode depth =>
    "stack underflow at " ++ toString position ++ " (" ++ opcode.mnemonic ++
      " needs " ++ toString opcode.arity ++ " operands, " ++ toString depth ++
      " available)"
  | .finalDepth depth expected =>
    "final stack depth " ++ toString depth ++ " does not match expected " ++
      toString expected

/-! ## Following the heights -/

/-- What is known after some instructions: the height of the stack, the
greatest height so far, and how many parameters have to be there. -/
structure Depths where
  depth : Nat
  peak : Nat
  parameters : Nat
  deriving DecidableEq, Repr

/-- Before the first instruction. -/
def Depths.start : Depths := ⟨0, 0, 0⟩

/-- After one more instruction, at a position of the program. -/
def Depths.step (position : Nat) (before : Depths) (i : Instruction) :
    Except ProgramFault Depths :=
  let slot := i.slot.toNat
  if i.opcode = .invalid then .error (.invalidOpcode position)
  else if i.opcode = .load ∧ (slot = 0 ∨ before.depth < slot) then
    .error (.loadOutside slot position before.depth)
  else if before.depth < i.opcode.arity then
    .error (.underflow position i.opcode before.depth)
  else
    let depth := before.depth - i.opcode.arity + 1
    .ok {
      depth
      peak := max before.peak depth
      parameters :=
        if i.opcode = .param then max before.parameters (slot + 1)
        else before.parameters }

/-- Follows the heights through instructions, from a position on. -/
def scan (position : Nat) (before : Depths) :
    List Instruction → Except ProgramFault Depths
  | [] => .ok before
  | i :: rest =>
    match before.step position i with
    | .error fault => .error fault
    | .ok after => scan (position + 1) after rest

/-- The heights of instructions that are to end at the height `final`. -/
def check (instructions : List Instruction) (final : Nat) :
    Except ProgramFault Depths :=
  if instructions.isEmpty then .error .empty
  else
    match scan 0 .start instructions with
    | .error fault => .error fault
    | .ok depths =>
      if depths.depth = final then .ok depths
      else .error (.finalDepth depths.depth final)

theorem depth_of_check {instructions : List Instruction} {final : Nat}
    {depths : Depths} (found : check instructions final = .ok depths) :
    depths.depth = final := by
  unfold check at found
  repeat' split at found
  all_goals cases found
  assumption

end FieldMesh.Program

namespace FieldMesh

open Program

/-- A checked list of instructions. -/
structure Program where
  instructions : List Instruction
  depths : Depths
  checked : check instructions depths.depth = .ok depths
  deriving DecidableEq

namespace Program

/-- Checks instructions that are to leave `final` entries on the stack: one
result for each block, and the result of the program on top. -/
def ofInstructions (instructions : List Instruction) (final : Nat) :
    Except ProgramFault Program :=
  match found : check instructions final with
  | .error fault => .error fault
  | .ok depths =>
    .ok ⟨instructions, depths, (depth_of_check found).symm ▸ found⟩

/-- The program with one value, whatever the parameters. -/
def constant (value : Vec3) : Program where
  instructions := [.const value]
  depths := ⟨1, 1, 0⟩
  checked := rfl

instance : Inhabited Program := ⟨constant Vec3.zero⟩

/-- The number of instructions. -/
def length (program : Program) : Nat := program.instructions.length

/-- The number of entries that the program leaves on the stack. -/
def finalDepth (program : Program) : Nat := program.depths.depth

/-- The greatest height of the stack. -/
def peakDepth (program : Program) : Nat := program.depths.peak

/-- The least number of parameters that the program can be run with. -/
def parameterCount (program : Program) : Nat := program.depths.parameters

/-! ## Listing -/

/-- The text of a vector, in parentheses. -/
def vectorText (v : Vec3) : String :=
  "(" ++ Decimal.formulaText v.x ++ ", " ++ Decimal.formulaText v.y ++ ", " ++
    Decimal.formulaText v.z ++ ")"

/-- The text of an instruction. -/
def Instruction.text (i : Instruction) : String :=
  match i.opcode with
  | .const => "const " ++ vectorText i.immediate
  | .param | .load => i.opcode.mnemonic ++ " " ++ toString i.slot.toNat
  | opcode => opcode.mnemonic

/-- A position, at least four places wide. -/
def positionText (position : Nat) : String :=
  let digits := toString position
  String.ofList (List.replicate (4 - digits.length) ' ') ++ digits

/-- The lines of the listing: a summary, then an instruction per line. -/
def listing (program : Program) : List String :=
  ("; " ++ toString program.length ++ " instructions, max depth " ++
      toString program.peakDepth ++ ", final depth " ++
      toString program.finalDepth) ::
    program.instructions.mapIdx fun position i =>
      positionText position ++ "  " ++ i.text

end Program

end FieldMesh
