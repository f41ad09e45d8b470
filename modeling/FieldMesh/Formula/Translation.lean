import FieldMesh.Formula.Functions
import FieldMesh.Formula.VariableTable

/-!
# Translation

Turns an expression into instructions. Operands are put out from right to
left, so that the leftmost is on top when its operation comes. Every
sub-formula gets a block of its own, put out where it is first used; blocks
run before the expression, in the order in which they were completed, and
leave their results at the bottom of the stack, from where they are copied.

* `Scope`: what names stand for;
* `emit`: the instructions of an expression, with a log of what else came
  up;
* `translate`: a whole expression.

The table of variables is only read. Names that were missing are declared
afterwards, and the trees that were read are kept, also if translation
fails. A table that changes on the way makes no difference:
`Translator.translate_eq`.
-/

namespace FieldMesh.Formula

open FieldMesh.Program (Instruction Opcode)
open FieldMesh.Text

/-- What names stand for: parameters first, then variables. -/
structure Scope where
  /-- The names of the parameters, in lower case. -/
  parameters : List String
  table : VariableTable

/-- What comes up during translation. -/
structure Log where
  /-- The sub-formulas that have a block, with its position counted from
  one. -/
  slots : List (String × UInt8) := []
  /-- The blocks, in the order in which they run. -/
  blocks : List (List Instruction) := []
  /-- The variables that were used. -/
  used : Names := []
  /-- The sub-formulas whose text was read. -/
  read : List String := []

/-- A step of translation: it can fail, and it adds to the log either way. -/
abbrev Emit := ExceptT CompileError (StateM Log)

/-- Notes that a variable is used. -/
def Log.use (log : Log) (name : String) : Log :=
  { log with used := log.used.insert name }

/-- Notes that the text of a sub-formula was read. -/
def Log.noteRead (log : Log) (name : String) : Log :=
  { log with read := name :: log.read }

/-- Gives a completed block to a sub-formula. -/
def Log.complete (log : Log) (name : String) (slot : UInt8)
    (block : List Instruction) : Log :=
  { log with
    slots := (name, slot) :: log.slots
    blocks := log.blocks ++ [block] }

/-- The operation of a binary operator. -/
def BinaryOp.opcode : BinaryOp → Opcode
  | .add => .add
  | .sub => .sub
  | .mul => .mul
  | .div => .div
  | .mod => .mod

/-- The declared names that are not among those being translated. -/
def Scope.unopened (scope : Scope) (path : List String) : Nat :=
  scope.table.entries.countP fun v => !path.contains v.name

/-- A name that is being translated is one less that is not. -/
theorem Scope.unopened_lt {scope : Scope} {path : List String} {name : String}
    {v : Variable} (found : scope.table.find? name = some v)
    (fresh : ¬ path.contains name = true) :
    scope.unopened (name :: path) < scope.unopened path := by
  obtain ⟨member, rfl⟩ := VariableTable.find?_some found
  obtain ⟨front, back, entries⟩ := List.append_of_mem member
  have fewer (vs : List Variable) :
      vs.countP (fun w => !(v.name :: path).contains w.name) ≤
        vs.countP (fun w => !path.contains w.name) := by
    refine List.countP_mono_left fun w _ outside => ?_
    rw [List.contains_cons, Bool.not_or, Bool.and_eq_true] at outside
    exact outside.2
  -- around the variable there are no more than before, and it counts no more
  have before := fewer front
  have behind := fewer back
  have counted : (!path.contains v.name) = true := by simpa using fresh
  have dropped : (!(v.name :: path).contains v.name) = false := by simp
  simp only [unopened, entries, List.countP_append, List.countP_cons, counted,
    dropped, Bool.false_eq_true, if_true, if_false]
  omega

mutual

/-- The instructions of an expression. `path` has the sub-formulas that are
being translated, innermost first. -/
def emit (scope : Scope) (path : List String) :
    Expr → Emit (List Instruction)
  | .constant value => return [.const (Vec3.splat value)]
  | .reference name =>
    match scope.parameters.findIdx? (· == name) with
    | some index => return [.param (UInt8.ofNat index)]
    | none => do
      modify (·.use name)
      match _found : scope.table.find? name with
      | none =>
        let v := Variable.named name
        if v.kind = .subFormula then throw (.emptySubFormula v.name)
        return [.const v.constant]
      | some v =>
        if v.kind ≠ .subFormula then return [.const v.constant]
        if _opened : path.contains name then
          throw (.recursiveDefinition name)
        else match (← get).slots.lookup name with
          | some slot => return [.load slot]
          | none =>
            let tree ← v.tree
            modify (·.noteRead name)
            let block ← emit scope (name :: path) tree
            let position := (← get).blocks.length + 1
            if 255 < position then throw .tooManySubFormulas
            let slot := UInt8.ofNat position
            modify (·.complete name slot block)
            return [.load slot]
  | .unary op operand => do
    let code ← emit scope path operand
    match op with
    | .plus => return code
    | .minus => return code ++ [.op .negate]
  | .binary op left right => do
    let second ← emit scope path right
    let first ← emit scope path left
    return second ++ first ++ [.op op.opcode]
  | .call function arguments => do
    let opcode ← Functions.resolve function arguments.length
    let code ← emitAll scope path arguments
    return code ++ [.op opcode]
termination_by e => (scope.unopened path, sizeOf e)
decreasing_by
  -- the block of a sub-formula, then the operands of this expression
  · exact Prod.Lex.left _ _ (Scope.unopened_lt _found _opened)
  all_goals decreasing_tactic

/-- The instructions of arguments, from right to left. -/
def emitAll (scope : Scope) (path : List String) :
    List Expr → Emit (List Instruction)
  | [] => return []
  | e :: rest => do
    let later ← emitAll scope path rest
    let first ← emit scope path e
    return later ++ first
termination_by es => (scope.unopened path, sizeOf es)

end

/-! ## Whole expressions -/

/-- The instructions of an expression and its sub-formulas. -/
structure Translation where
  /-- The blocks in the order of their slots, then the expression. -/
  instructions : List Instruction
  /-- The number of blocks. -/
  slotCount : Nat
  /-- The variables that are used, also within sub-formulas. -/
  used : Names

/-- Checks the instructions, which leave one result per block and that of
the expression. -/
def Translation.program (translation : Translation) :
    Except CompileError Program :=
  (Program.ofInstructions translation.instructions
    (translation.slotCount + 1)).mapError .invalidProgram

/-- Declares the names that came up, and keeps the trees that were read. -/
def VariableTable.learn (table : VariableTable) (log : Log) : VariableTable :=
  let declared := log.used.foldl (fun t name => (t.findOrInsert name).2) table
  log.read.foldl keepTree declared

/-- Translates an expression whose parameters have the given names. -/
def translate (table : VariableTable) (parameters : List String) (e : Expr) :
    Except CompileError Translation × VariableTable :=
  if 256 < parameters.length then
    (.error (.tooManyParameters parameters.length), table)
  else
    let scope : Scope := ⟨parameters.map lower, table⟩
    let (result, log) := (emit scope [] e).run {}
    let translation := result.map fun main =>
      { instructions := log.blocks.flatten ++ main
        slotCount := log.blocks.length
        used := log.used }
    (translation, table.learn log)

end FieldMesh.Formula
