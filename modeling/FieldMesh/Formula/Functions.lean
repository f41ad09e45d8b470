import FieldMesh.Formula.CompileError

/-!
# Functions

The functions that formulas can call: the operations that have a name,
grouped by it. Operations of one name differ in how many arguments they
take.

* `overloads`: the operations of a name, by ascending number of arguments;
* `resolve`: the operation that a call stands for.
-/

namespace FieldMesh.Formula.Functions

open FieldMesh.Program (Opcode)

/-- The operations that are called by a name. -/
def overloads (name : String) : List Opcode :=
  Opcode.all.filter fun op => op.function? == some name

/-- The operation that a call by name with some number of arguments stands
for. -/
def resolve (name : String) (arguments : Nat) : Except CompileError Opcode :=
  let candidates := overloads name
  if candidates.isEmpty then .error (.unknownFunction name)
  else
    match candidates.find? (·.arity == arguments) with
    | some op => .ok op
    | none =>
      .error (.wrongArgumentCount name (candidates.map Opcode.arity) arguments)

/-- The operation of a call takes as many operands as the call has
arguments. -/
theorem arity_of_resolve {name : String} {arguments : Nat} {op : Opcode}
    (found : resolve name arguments = .ok op) : op.arity = arguments := by
  unfold resolve at found
  simp only at found
  split at found
  · cases found
  · split at found
    · next candidate member =>
      cases found
      simpa using List.find?_some member
    · cases found

/-- The names that can be called, in ascending order. -/
def names : List String :=
  ((Opcode.all.filterMap Opcode.function?).eraseDups).mergeSort (· ≤ ·)

end FieldMesh.Formula.Functions
