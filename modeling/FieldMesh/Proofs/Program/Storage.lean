import FieldMesh.Program.Document
import FieldMesh.Program.Machine
import FieldMesh.Proofs.Json.Values

/-!
# Stored programs

A program is stored as its instructions, and read back it is checked again. A
vector of zeros is left out and comes back with positive zeros, whatever their
signs were. Nothing else is lost, so a program runs as before unless it pushes
a negative zero in such a vector.

* `Instruction.stored`: what comes back for an instruction;
* `Program.stored`: the program that comes back;
* **main result**: `ofText_toText`.
-/

namespace FieldMesh.Program

open FieldMesh.Json (ReadsBack)

/-! ## Instructions -/

/-- The instruction that comes back. -/
def Instruction.stored (i : Instruction) : Instruction :=
  if i.immediate.sameNumbers Vec3.zero then { i with immediate := Vec3.zero }
  else i

namespace Instruction

variable (i : Instruction)

theorem opcode_stored : i.stored.opcode = i.opcode := by
  unfold stored
  split <;> rfl

theorem slot_stored : i.stored.slot = i.slot := by
  unfold stored
  split <;> rfl

theorem immediate_stored : i.stored.immediate =
    if i.immediate.sameNumbers Vec3.zero then Vec3.zero else i.immediate := by
  unfold stored
  split <;> rfl

end Instruction

/-- The fields of an instruction's document. -/
theorem Instruction.members?_toJson (i : Instruction) :
    i.toJson.members? ["opcode", "immediate", "slot"] =
      some [some (.ofText i.opcode.documentName),
        if i.immediate.sameNumbers Vec3.zero then none
        else some (.ofVector i.immediate),
        if i.slot = 0 then none else some (.ofNat i.slot.toNat)] := by
  unfold toJson
  by_cases zero : i.immediate.sameNumbers Vec3.zero = true <;>
    by_cases first : i.slot = 0 <;>
    · simp only [zero, first, if_true, if_false, Bool.false_eq_true]
      rw [Json.members?_ofFields (by simp)]
      rfl

/-- An instruction is decoded without the signs of its zeros. -/
theorem Instruction.ofJson?_toJson {i : Instruction}
    (reads : ∀ x ∈ [i.immediate.x, i.immediate.y, i.immediate.z], ReadsBack x) :
    Instruction.ofJson? i.toJson = some i.stored := by
  have opcode : Opcode.ofDocumentName? i.opcode.documentName = some i.opcode :=
    Opcode.ofDocumentName?_documentName i.opcode
  have vector : Json.optional Vec3.zero Json.vector?
      (if i.immediate.sameNumbers Vec3.zero then none
        else some (.ofVector i.immediate)) = some i.stored.immediate := by
    rw [immediate_stored]
    split
    · rfl
    · exact Json.vector?_ofVector reads
  have slot : Json.optional 0 (Json.natural? UInt8.size)
      (if i.slot = 0 then none else some (.ofNat i.slot.toNat)) =
        some i.slot.toNat := by
    split
    · next first => rw [first]; rfl
    · exact Json.natural?_ofNat i.slot.toNat_lt
        (Nat.lt_trans i.slot.toNat_lt (by decide))
  have choice : Json.required Json.choice?
      (some (.ofText i.opcode.documentName)) = some i.opcode.documentName := rfl
  have whole : i.stored = ⟨i.opcode, i.stored.immediate, .ofNat i.slot.toNat⟩ := by
    rw [UInt8.ofNat_toNat, ← i.opcode_stored, ← i.slot_stored]
  rw [Instruction.ofJson?, members?_toJson]
  simp only [bind, Option.bind, choice, opcode, vector, slot]
  exact congrArg some whole.symm

/-! ## Programs -/

/-- The height at each instruction does not depend on the vectors. -/
theorem scan_stored (code : List Instruction) (position : Nat) (before : Depths) :
    scan position before (code.map Instruction.stored) =
      scan position before code := by
  induction code generalizing position before with
  | nil => rfl
  | cons i rest ih =>
    have step : before.step position i.stored = before.step position i := by
      simp only [Depths.step, i.opcode_stored, i.slot_stored]
    rw [List.map_cons, scan, scan, step]
    split
    · rfl
    · exact ih _ _

theorem check_stored (code : List Instruction) (final : Nat) :
    check (code.map Instruction.stored) final = check code final := by
  unfold check
  rw [List.isEmpty_map, scan_stored]

/-- The program that comes back. -/
def stored (program : Program) : Program where
  instructions := program.instructions.map Instruction.stored
  depths := program.depths
  checked := (check_stored _ _).trans program.checked

theorem ofInstructions_stored (program : Program) :
    ofInstructions (program.instructions.map Instruction.stored)
      program.finalDepth = .ok program.stored := by
  have checked := program.stored.checked
  unfold ofInstructions
  split
  · next fault failed => cases failed.symm.trans checked
  · next depths passed =>
    cases passed.symm.trans checked
    rfl

theorem readable_toJson (program : Program) : program.toJson.Readable := by
  refine Json.readable_ofFields fun field member => ?_
  simp only [List.mem_cons, List.not_mem_nil, or_false] at member
  rcases member with rfl | rfl
  · refine Json.readableItems_iff.mpr fun item inside => ?_
    obtain ⟨i, -, rfl⟩ := List.mem_map.mp inside
    refine Json.readable_ofFields fun field member => ?_
    simp only [List.mem_append, List.mem_singleton] at member
    rcases member with (rfl | vector) | slot
    · exact Json.readable_ofText _
    · split at vector
      · cases vector
      · cases List.mem_singleton.mp vector
        exact Json.readable_ofVector _
    · split at slot
      · cases slot
      · cases List.mem_singleton.mp slot
        exact Json.readable_ofNat _
  · exact Json.readable_ofNat _

/-- A program comes back from its text, without the signs of zeros. -/
theorem ofText_toText_eq {program : Program}
    (reads : ∀ i ∈ program.instructions,
      ∀ x ∈ [i.immediate.x, i.immediate.y, i.immediate.z], ReadsBack x)
    (fits : program.finalDepth < UInt64.size) :
    ofText program.toText = .ok program.stored := by
  have instructions : Json.list? Instruction.ofJson?
      (.list (program.instructions.map Instruction.toJson)) =
        some (program.instructions.map Instruction.stored) :=
    Json.mapM_map_eq_some fun i member => i.ofJson?_toJson (reads i member)
  have final : Json.natural? UInt64.size (.ofNat program.finalDepth) =
      some program.finalDepth := Json.natural?_ofNat fits fits
  have parts : partsOfJson? program.toJson =
      some (program.instructions.map Instruction.stored, program.finalDepth) := by
    rw [partsOfJson?, toJson, Json.members?_ofFields (by simp)]
    simp [List.lookup_cons, Json.required, instructions, final]
  rw [ofText, toText, Json.read_pretty program.readable_toJson]
  simp only [parts, ofInstructions_stored, if_true]

/-! ## Runs -/

/-- An instruction that pushes the vector it holds gets it back. -/
def Instruction.Kept (i : Instruction) : Prop :=
  i.opcode = .const → i.immediate.sameNumbers Vec3.zero = true →
    i.immediate = Vec3.zero

theorem value_stored {i : Instruction} (kept : i.Kept)
    (parameters stack : List Vec3) :
    Machine.value parameters stack i.stored = Machine.value parameters stack i := by
  unfold Machine.value
  rw [i.opcode_stored, i.slot_stored, i.immediate_stored]
  split
  · next const =>
    split
    · next zero => rw [kept const zero]
    · rfl
  all_goals rfl

theorem executeAll_stored {code : List Instruction} (kept : ∀ i ∈ code, i.Kept)
    (parameters : List Vec3) (limit : Nat) (stack : List Vec3) :
    Machine.executeAll parameters limit (code.map Instruction.stored) stack =
      Machine.executeAll parameters limit code stack := by
  induction code generalizing stack with
  | nil => rfl
  | cons i rest ih =>
    obtain ⟨first, others⟩ := List.forall_mem_cons.mp kept
    have step : Machine.execute parameters limit stack i.stored =
        Machine.execute parameters limit stack i := by
      rw [Machine.execute, value_stored first, Machine.execute]
    rw [List.map_cons, Machine.executeAll, Machine.executeAll, step]
    split
    · rfl
    · exact ih others _

theorem run_stored {program : Program} (kept : ∀ i ∈ program.instructions, i.Kept)
    (machine : Machine) (parameters : List Vec3) :
    machine.run program.stored parameters = machine.run program parameters := by
  have executed := executeAll_stored kept parameters program.peakDepth []
  have code : program.stored.instructions =
      program.instructions.map Instruction.stored := rfl
  have missing : program.stored.parameterCount = program.parameterCount := rfl
  have peak : program.stored.peakDepth = program.peakDepth := rfl
  have final : program.stored.finalDepth = program.finalDepth := rfl
  unfold Machine.run
  rw [code, missing, peak, final, executed]

/-! ## Storing and loading -/

/-- **Storing and loading.** A program of finite vectors is stored as a text
that is read back as a program, with the same length, heights and parameters.
If it pushes no vector that equals zero with a negative zero in it, every run
goes as before. -/
theorem ofText_toText (program : Program)
    (finite : ∀ i ∈ program.instructions, i.immediate.isFinite = true)
    (readBack : ∀ i ∈ program.instructions,
      ∀ x ∈ [i.immediate.x, i.immediate.y, i.immediate.z],
        x.isFinite = true → ReadsBack x)
    (fits : program.finalDepth < UInt64.size) :
    ∃ loaded, ofText program.toText = .ok loaded ∧
      loaded.length = program.length ∧
      loaded.peakDepth = program.peakDepth ∧
      loaded.parameterCount = program.parameterCount ∧
      loaded.finalDepth = program.finalDepth ∧
      ((∀ i ∈ program.instructions, i.Kept) →
        ∀ (machine : Machine) (parameters : List Vec3),
          machine.run loaded parameters = machine.run program parameters) := by
  have reads : ∀ i ∈ program.instructions,
      ∀ x ∈ [i.immediate.x, i.immediate.y, i.immediate.z], ReadsBack x :=
    fun i member x place =>
      readBack i member x place (Json.isFinite_of_mem (finite i member) x place)
  exact ⟨program.stored, ofText_toText_eq reads fits, List.length_map _, rfl,
    rfl, rfl, run_stored⟩

/-- Twice the first parameter. -/
def doubled : Program where
  instructions := [.param 0, .const (.splat 2.0), .op .mul]
  depths := ⟨1, 2, 1⟩
  checked := by decide

theorem ofText_toText_doubled :
    ∃ loaded, ofText doubled.toText = .ok loaded ∧ loaded.parameterCount = 1 ∧
      ∀ (machine : Machine) (parameters : List Vec3),
        machine.run loaded parameters = machine.run doubled parameters := by
  have finite : ∀ i ∈ doubled.instructions, i.immediate.isFinite = true := by
    decide +kernel
  have digits : ∀ i ∈ doubled.instructions,
      ∀ x ∈ [i.immediate.x, i.immediate.y, i.immediate.z],
        ∃ d, x = Json.digitValue false d := by
    decide +kernel
  have kept : ∀ i ∈ doubled.instructions, i.Kept := by
    unfold Instruction.Kept
    decide +kernel
  obtain ⟨loaded, read, -, -, count, -, same⟩ := ofText_toText doubled finite
    (fun i member x place _ => by
      obtain ⟨d, rfl⟩ := digits i member x place
      exact Json.readsBack_digitValue false d) (by decide)
  exact ⟨loaded, read, count, same kept⟩

/-- One divided by a vector of negative zeros. -/
def negativePole : Program where
  instructions := [.const (.splat (-0.0)), .const (.splat 1.0), .op .div]
  depths := ⟨1, 2, 0⟩
  checked := by decide

/-- A vector of negative zeros is finite and would read back, but it is left
out: the pole changes its sign. -/
theorem ofText_toText_negativePole :
    (∀ i ∈ negativePole.instructions, i.immediate.isFinite = true ∧
      ∀ x ∈ [i.immediate.x, i.immediate.y, i.immediate.z], ReadsBack x) ∧
    negativePole.eval [] = .ok (.splat (-1.0 / 0.0)) ∧
    ∃ loaded, ofText negativePole.toText = .ok loaded ∧
      loaded.eval [] = .ok (.splat (1.0 / 0.0)) ∧
      loaded.eval [] ≠ negativePole.eval [] := by
  have digits : ∀ i ∈ negativePole.instructions, i.immediate.isFinite = true ∧
      ∀ x ∈ [i.immediate.x, i.immediate.y, i.immediate.z],
        ∃ negative d, x = Json.digitValue negative d := by
    decide +kernel
  have reads : ∀ i ∈ negativePole.instructions,
      ∀ x ∈ [i.immediate.x, i.immediate.y, i.immediate.z], ReadsBack x := by
    intro i member x place
    obtain ⟨negative, d, rfl⟩ := (digits i member).2 x place
    exact Json.readsBack_digitValue negative d
  refine ⟨fun i member => ⟨(digits i member).1, reads i member⟩,
    by decide +kernel, negativePole.stored, ?_, by decide +kernel,
    by decide +kernel⟩
  exact ofText_toText_eq reads (by decide)

end FieldMesh.Program
