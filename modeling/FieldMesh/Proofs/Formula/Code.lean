import FieldMesh.Proofs.Formula.Compilation
import FieldMesh.Proofs.Formula.Dependence

/-!
# The code of an expression

What an expression is translated to, once its sub-formulas have numbers, is
told here without a log: an instruction for every node, operands from right to
left, and none for a sign that changes nothing.

* `Scope.code`: the code of an expression;
* `Scope.length_code`: it has an instruction for every node that counts;
* `Scope.Pushing`: code that loads from the bottom of the stack only, and
  pushes a number of results on top;
* **main result**: `Scope.pushing_code`.
-/

namespace FieldMesh.Formula

open FieldMesh.Program (Depths Fault Instruction Opcode Pushes scan)
open FieldMesh.Program.Machine (perform value)
open FieldMesh.Text

/-! ## Code -/

/-- The instruction for a name. -/
def Scope.nameCode (scope : Scope) (number : String → UInt8) (name : String) :
    Instruction :=
  match scope.parameters.findIdx? (· == name) with
  | some index => .param (UInt8.ofNat index)
  | none =>
    let v := (scope.table.find? name).getD (.implied (lower name))
    if v.kind = .subFormula then .load (number name) else .const v.constant

mutual

/-- The instructions for an expression. A call that stands for no operation
has none. -/
def Scope.code (scope : Scope) (number : String → UInt8) :
    Expr → List Instruction
  | .constant value => [.const (Vec3.splat value)]
  | .reference name => [scope.nameCode number name]
  | .unary .plus operand => scope.code number operand
  | .unary .minus operand => scope.code number operand ++ [.op .negate]
  | .binary op left right =>
    scope.code number right ++ scope.code number left ++ [.op op.opcode]
  | .call function arguments =>
    match Functions.resolve function arguments.length with
    | .ok opcode => scope.codeAll number arguments ++ [.op opcode]
    | .error _ => []

/-- The instructions for arguments, from right to left. -/
def Scope.codeAll (scope : Scope) (number : String → UInt8) :
    List Expr → List Instruction
  | [] => []
  | e :: rest => scope.codeAll number rest ++ scope.code number e

end

theorem Scope.codeAll_append (scope : Scope) (number : String → UInt8)
    (front back : List Expr) :
    scope.codeAll number (front ++ back) =
      scope.codeAll number back ++ scope.codeAll number front := by
  induction front with
  | nil => simp [Scope.codeAll]
  | cons e rest ih => simp [Scope.codeAll, ih]

/-! ## Length -/

/-- A sign that changes nothing. -/
def Expr.isPlus : Expr → Bool
  | .unary .plus _ => true
  | _ => false

/-- How many of some nodes count. -/
def countNodes (nodes : List Expr) : Nat := nodes.countP fun node => !node.isPlus

theorem countNodes_cons (node : Expr) (nodes : List Expr) :
    countNodes (node :: nodes) =
      countNodes nodes + if node.isPlus then 0 else 1 := by
  rw [countNodes, List.countP_cons, countNodes]
  cases node.isPlus <;> rfl

theorem countNodes_append (nodes more : List Expr) :
    countNodes (nodes ++ more) = countNodes nodes + countNodes more :=
  List.countP_append

section Callable

variable {nodes more : List Expr}

theorem Callable.mono (callable : Callable more) (subset : nodes ⊆ more) :
    Callable nodes :=
  fun function arguments member => callable function arguments (subset member)

theorem Callable.tail {node : Expr} (callable : Callable (node :: nodes)) :
    Callable nodes :=
  callable.mono (List.subset_cons_self _ _)

theorem Callable.left (callable : Callable (nodes ++ more)) : Callable nodes :=
  callable.mono (List.subset_append_left _ _)

theorem Callable.right (callable : Callable (nodes ++ more)) : Callable more :=
  callable.mono (List.subset_append_right _ _)

/-- The call at the top stands for an operation. -/
theorem Callable.resolve {function : String} {arguments : List Expr}
    (callable : Callable (.call function arguments :: nodes)) :
    ∃ opcode, Functions.resolve function arguments.length = .ok opcode :=
  Functions.resolve_ok_iff.mpr (callable function arguments List.mem_cons_self)

end Callable

/-- Code has an instruction for every node that counts. -/
theorem Scope.length_code (scope : Scope) (number : String → UInt8) :
    (∀ e, Callable e.preorder →
      (scope.code number e).length = countNodes e.preorder) ∧
    (∀ es, Callable (Expr.preorderAll es) →
      (scope.codeAll number es).length = countNodes (Expr.preorderAll es)) := by
  apply Scope.code.mutual_induct
  case case1 =>
    intro value _
    rw [Scope.code, Expr.preorder]
    rfl
  case case2 =>
    intro name _
    rw [Scope.code, Expr.preorder]
    rfl
  case case3 =>
    intro operand ih callable
    rw [Expr.preorder] at callable ⊢
    rw [Scope.code, ih callable.tail, countNodes_cons]
    rfl
  case case4 =>
    intro operand ih callable
    rw [Expr.preorder] at callable ⊢
    rw [Scope.code, List.length_append, ih callable.tail, countNodes_cons]
    rfl
  case case5 =>
    intro op left right ihRight ihLeft callable
    rw [Expr.preorder] at callable ⊢
    have operands := callable.tail
    rw [Scope.code, List.length_append, List.length_append, ihRight operands.right,
      ihLeft operands.left, countNodes_cons, countNodes_append,
      Nat.add_comm (countNodes right.preorder)]
    rfl
  case case6 =>
    intro function arguments opcode resolved ih callable
    rw [Expr.preorder] at callable ⊢
    rw [Scope.code, resolved]
    simp only [List.length_append]
    rw [ih callable.tail, countNodes_cons]
    rfl
  case case7 =>
    -- callable nodes have no call without an operation
    intro function arguments failure failed callable
    rw [Expr.preorder] at callable
    obtain ⟨opcode, resolved⟩ := callable.resolve
    rw [failed] at resolved
    cases resolved
  case case8 =>
    intro _
    rw [Scope.codeAll, Expr.preorderAll]
    rfl
  case case9 =>
    intro e rest ihRest ih callable
    rw [Expr.preorderAll] at callable ⊢
    rw [Scope.codeAll, List.length_append, ihRest callable.right, ih callable.left,
      countNodes_append, Nat.add_comm]

/-! ## Pushing -/

/-- Instructions that load from the `height` entries at the bottom of the
stack only and push `count` results, both as heights are followed and when
they run. -/
structure Scope.Pushing (scope : Scope) (height : Nat) (code : List Instruction)
    (count : Nat) : Prop where
  loads : ∀ i ∈ code, i.opcode = .load →
    0 < i.slot.toNat ∧ i.slot.toNat ≤ height
  raises : Raises height scope.parameters.length code count
  pushes : ∀ arguments : List Vec3, scope.parameters.length ≤ arguments.length →
    ∀ stack : List Vec3, height ≤ stack.length →
      ∃ results, results.length = count ∧ Pushes arguments code stack results

namespace Scope.Pushing

variable {scope : Scope} {height count : Nat} {code : List Instruction}

theorem nil : scope.Pushing height [] 0 where
  loads _ member := absurd member List.not_mem_nil
  raises := .nil
  pushes _ _ _ _ := ⟨[], rfl, .nil⟩

theorem append {second : List Instruction} {count' : Nat}
    (first : scope.Pushing height code count)
    (later : scope.Pushing height second count') :
    scope.Pushing height (code ++ second) (count + count') where
  loads i member load := by
    rcases List.mem_append.mp member with member | member
    · exact first.loads i member load
    · exact later.loads i member load
  raises := first.raises.append (later.raises.mono (Nat.le_add_right _ _))
  pushes arguments enough stack high := by
    obtain ⟨results, length, pushes⟩ := first.pushes arguments enough stack high
    -- the second part finds more on the stack, and what it finds may vary
    rcases Program.values_or_fault results with ⟨vs, rfl⟩ | ⟨f, member⟩
    · have higher : height ≤ (vs ++ stack).length := by
        rw [List.length_append]
        omega
      obtain ⟨more, length', pushes'⟩ := later.pushes arguments enough _ higher
      refine ⟨more ++ vs.map .ok, ?_, pushes.append fun vs' same => ?_⟩
      · rw [List.length_append, length, length', Nat.add_comm]
      · have equal : vs' = vs := by
          have injective : Function.Injective (Except.ok : Vec3 → Except Fault Vec3) :=
            fun _ _ => Except.ok.inj
          exact (List.map_injective_iff.mpr injective same).symm
        rw [equal]
        exact pushes'
    · refine ⟨List.replicate count' (.error f) ++ results, ?_,
        pushes.append fun vs same => ?_⟩
      · rw [List.length_append, List.length_replicate, length, Nat.add_comm]
      · rw [same] at member
        exact absurd member Program.not_mem_map_ok

/-- One instruction that pushes a value. -/
theorem single {i : Instruction} (nullary : i.opcode.arity = 0)
    (valid : i.opcode ≠ .invalid)
    (loads : i.opcode = .load → 0 < i.slot.toNat ∧ i.slot.toNat ≤ height)
    (reads : i.opcode = .param → i.slot.toNat < scope.parameters.length)
    (given : ∀ arguments : List Vec3,
      scope.parameters.length ≤ arguments.length → ∀ stack : List Vec3,
        height ≤ stack.length → ∃ v, value arguments stack i = .ok (v, stack)) :
    scope.Pushing height [i] 1 where
  loads j member load := by
    cases List.mem_singleton.mp member
    exact loads load
  raises := Raises.leaf .nil nullary valid loads reads
  pushes arguments enough stack high := by
    obtain ⟨v, pushed⟩ := given arguments enough stack high
    refine ⟨[.ok v], rfl, Pushes.nil.snoc fun vs same => ?_⟩
    rw [List.map_eq_nil_iff.mp same.symm]
    exact pushed

/-- A constant is pushed. -/
theorem const (v : Vec3) : scope.Pushing height [.const v] 1 := by
  refine .single rfl ?_ ?_ ?_ fun arguments _ stack _ => ⟨v, rfl⟩
  all_goals
    intro other
    cases other

/-- An operation on results. -/
theorem op {opcode : Opcode} (takes : 0 < opcode.arity)
    (operands : scope.Pushing height code opcode.arity) :
    scope.Pushing height (code ++ [.op opcode]) 1 where
  loads i member load := by
    rcases List.mem_append.mp member with member | member
    · exact operands.loads i member load
    · cases List.mem_singleton.mp member
      rw [show opcode = .load from load] at takes
      cases takes
  raises := Raises.op takes operands.raises
  pushes arguments enough stack high := by
    obtain ⟨results, length, pushes⟩ :=
      operands.pushes arguments enough stack high
    rw [← List.append_nil results] at pushes
    exact ⟨[opcode.combine results], rfl, pushes.op takes length⟩

end Scope.Pushing

/-- The sub-formulas that some nodes mention have numbers from one up to a
height. -/
def Scope.Numbered (scope : Scope) (number : String → UInt8) (height : Nat)
    (nodes : List Expr) : Prop :=
  ∀ name, scope.Mentions nodes name → scope.Abbreviates name →
    0 < (number name).toNat ∧ (number name).toNat ≤ height

theorem Scope.Numbered.mono {scope : Scope} {number : String → UInt8}
    {height : Nat} {nodes more : List Expr}
    (numbered : scope.Numbered number height more) (subset : nodes ⊆ more) :
    scope.Numbered number height nodes :=
  fun name mentions => numbered name ⟨subset mentions.1, mentions.2⟩

section

variable {scope : Scope} (ascending : scope.table.Ascending)
  (few : scope.parameters.length ≤ 256) (number : String → UInt8) (height : Nat)

include ascending few

/-- The instruction for a name pushes a result. -/
theorem Scope.pushing_nameCode {name : String}
    (numbered : scope.Numbered number height [.reference name]) :
    scope.Pushing height [scope.nameCode number name] 1 := by
  unfold Scope.nameCode
  split
  · next index found =>
    have inside : index < scope.parameters.length :=
      (List.findIdx?_eq_some_iff_getElem.mp found).1
    have slot : (UInt8.ofNat index).toNat = index := toNat_ofNat_of_lt (by omega)
    refine .single rfl ?_ ?_ (fun _ => ?_) fun arguments enough stack _ => ?_
    · intro invalid
      cases invalid
    · intro load
      cases load
    · rw [Instruction.param, slot]
      exact inside
    · have present := List.getElem?_eq_getElem (show index < arguments.length by
        omega)
      refine ⟨arguments[index], ?_⟩
      unfold Program.Machine.value
      simp only [Instruction.param, slot, present]
  · next free =>
    simp only
    split
    · next kind =>
      -- a sub-formula: its number is that of an entry at the bottom
      have declares : scope.Declares name _ :=
        Scope.declares_of_find? ascending rfl
      obtain ⟨counted, low⟩ := numbered name ⟨List.mem_singleton_self _, free⟩
        ⟨_, _, declares, kind, rfl⟩
      refine .single rfl ?_ (fun _ => ⟨counted, low⟩) ?_
        fun arguments enough stack high => ?_
      · intro invalid
        cases invalid
      · intro param
        cases param
      · have inside : (number name).toNat - 1 < stack.reverse.length := by
          rw [List.length_reverse]
          omega
        refine ⟨stack.reverse[(number name).toNat - 1], ?_⟩
        unfold Program.Machine.value
        simp only [Instruction.load, if_neg (Nat.ne_of_gt counted),
          List.getElem?_eq_getElem inside]
    · exact .const _

/-- **Code.** The code of an expression whose sub-formulas have numbers up to
a height loads from there only, and pushes one result. -/
theorem Scope.pushing_code :
    (∀ e, Callable e.preorder → scope.Numbered number height e.preorder →
      scope.Pushing height (scope.code number e) 1) ∧
    (∀ es, Callable (Expr.preorderAll es) →
      scope.Numbered number height (Expr.preorderAll es) →
      scope.Pushing height (scope.codeAll number es) es.length) := by
  apply Scope.code.mutual_induct
  case case1 =>
    intro value _ _
    rw [Scope.code]
    exact .const _
  case case2 =>
    intro name _ numbered
    rw [Scope.code]
    exact Scope.pushing_nameCode ascending few number height numbered
  case case3 =>
    intro operand ih callable numbered
    rw [Expr.preorder] at callable numbered
    rw [Scope.code]
    exact ih callable.tail (numbered.mono (List.subset_cons_self _ _))
  case case4 =>
    intro operand ih callable numbered
    rw [Expr.preorder] at callable numbered
    rw [Scope.code]
    have takes : 0 < Opcode.arity .negate := by decide
    exact .op takes
      (ih callable.tail (numbered.mono (List.subset_cons_self _ _)))
  case case5 =>
    intro op left right ihRight ihLeft callable numbered
    rw [Expr.preorder] at callable numbered
    rw [Scope.code]
    have operands := numbered.mono (List.subset_cons_self _ _)
    -- the right operand is pushed first and ends up below the left one
    have second := ihRight callable.tail.right
      (operands.mono (List.subset_append_right _ _))
    have first := ihLeft callable.tail.left
      (operands.mono (List.subset_append_left _ _))
    have two := op.arity_opcode
    refine .op (by omega) ?_
    rw [two]
    exact second.append first
  case case6 =>
    intro function arguments opcode resolved ih callable numbered
    rw [Expr.preorder] at callable numbered
    rw [Scope.code, resolved]
    refine .op (Functions.arity_pos_of_resolve resolved) ?_
    rw [Functions.arity_of_resolve resolved]
    exact ih callable.tail (numbered.mono (List.subset_cons_self _ _))
  case case7 =>
    intro function arguments failure failed callable numbered
    rw [Expr.preorder] at callable
    obtain ⟨opcode, resolved⟩ := callable.resolve
    rw [failed] at resolved
    cases resolved
  case case8 =>
    intro _ _
    rw [Scope.codeAll]
    exact .nil
  case case9 =>
    intro e rest ihRest ih callable numbered
    rw [Expr.preorderAll] at callable numbered
    rw [Scope.codeAll]
    exact (ihRest callable.right (numbered.mono (List.subset_append_right _ _))).append
      (ih callable.left (numbered.mono (List.subset_append_left _ _)))

end

end FieldMesh.Formula
