import FieldMesh.Json.Decode
import FieldMesh.Json.Writer
import FieldMesh.Program.Basic

/-!
# Programs in documents

A program is stored as its instructions and the height at which it ends; the
rest is found again by checking it. Instructions leave out a zero vector and
a zero slot.

* `toText`: the document of a program;
* `ofText`: the program of a document, which is checked like any other list
  of instructions.
-/

namespace FieldMesh.Program

/-- The document of an instruction. -/
def Instruction.toJson (i : Instruction) : Json :=
  .ofFields <|
    [("opcode", .ofText i.opcode.documentName)] ++
    (if i.immediate.sameNumbers Vec3.zero then []
      else [("immediate", .ofVector i.immediate)]) ++
    if i.slot = 0 then [] else [("slot", .ofNat i.slot.toNat)]

/-- The instruction of a document. -/
def Instruction.ofJson? (j : Json) : Option Instruction := do
  let [opcode, immediate, slot] ← j.members? ["opcode", "immediate", "slot"]
    | none
  let opcode ← Json.required Json.choice? opcode
  return {
    opcode := ← Opcode.ofDocumentName? opcode
    immediate := ← Json.optional Vec3.zero Json.vector? immediate
    slot := UInt8.ofNat (← Json.optional 0 (Json.natural? UInt8.size) slot) }

/-- The document of a program. -/
def toJson (program : Program) : Json :=
  .ofFields [
    ("instructions", .list (program.instructions.map Instruction.toJson)),
    ("expected_final_stack_size", .ofNat program.finalDepth)]

/-- The instructions of a document and the height at which they are to
end. -/
def partsOfJson? (j : Json) : Option (List Instruction × Nat) := do
  let [instructions, final] ←
    j.members? ["instructions", "expected_final_stack_size"] | none
  return (← Json.required (Json.list? Instruction.ofJson?) instructions,
    ← Json.required (Json.natural? UInt64.size) final)

/-- The text of a program's document. -/
def toText (program : Program) : String := program.toJson.pretty

/-- Why a document is no program. -/
inductive DocumentFault where
  /-- The text is no document of instructions. -/
  | malformed
  /-- The instructions are no program. -/
  | invalid (fault : ProgramFault)
  deriving DecidableEq, Repr

/-- The program of a document. Instructions are checked before what follows
the document is looked at. -/
def ofText (text : String) : Except DocumentFault Program :=
  match Json.read text with
  | none => .error .malformed
  | some (value, complete) =>
    match partsOfJson? value with
    | none => .error .malformed
    | some (instructions, final) =>
      match ofInstructions instructions final with
      | .error fault => .error (.invalid fault)
      | .ok program => if complete then .ok program else .error .malformed

end FieldMesh.Program
