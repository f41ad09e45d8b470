import FieldMesh.Proofs.Formula.Emission
import FieldMesh.Proofs.Formula.Lookup
import FieldMesh.Proofs.Program.Unbounded

/-!
# The value of an expression

What an expression is worth, told by recursion on the expression itself and
on the texts of the sub-formulas that it names, without instructions, stack
or slots.

* `Scope.Denotes`: what a name stands for;
* `Evaluates`: the value of an expression, or the fault of an operation in
  it;
* `Evaluates.unique`: there is at most one;
* `Evaluates.error`: the only fault is noise at a place where it is not
  defined.
-/

namespace FieldMesh.Formula

open FieldMesh.Program (Fault Opcode)
open FieldMesh.Text

/-! ## Names -/

/-- What a name stands for: a vector, or an expression to be evaluated. -/
inductive Meaning where
  | value (v : Vec3)
  | tree (e : Expr)

/-- `scope.Denotes arguments name meaning`: with these arguments for the
parameters, the name stands for that. -/
inductive Scope.Denotes (scope : Scope) (arguments : List Vec3)
    (name : String) : Meaning → Prop
  /-- The first parameter of that name comes before all variables. -/
  | parameter {index v} :
    scope.parameters.findIdx? (· == name) = some index →
    arguments[index]? = some v →
    scope.Denotes arguments name (.value v)
  | vector {v} :
    scope.Free name → v ∈ scope.table.entries → v.name = name →
    v.kind = .vector →
    scope.Denotes arguments name (.value v.value)
  | float {v} :
    scope.Free name → v ∈ scope.table.entries → v.name = name →
    v.kind = .float →
    scope.Denotes arguments name (.value (.splat v.value.x))
  /-- A sub-formula stands for what its text says. -/
  | subFormula {v tree} :
    scope.Free name → v ∈ scope.table.entries → v.name = name →
    v.kind = .subFormula → parse v.text = .ok (some tree) →
    scope.Denotes arguments name (.tree tree)
  /-- A name that is not declared stands for zero, unless its first letter
  makes it a sub-formula. -/
  | undeclared :
    scope.Free name → (∀ v ∈ scope.table.entries, v.name ≠ name) →
    VariableKind.byInitial (lower name) ≠ .subFormula →
    scope.Denotes arguments name (.value Vec3.zero)

/-- A name stands for one thing. -/
theorem Scope.Denotes.unique {scope : Scope} {arguments : List Vec3}
    {name : String} (ascending : scope.table.Ascending) {m m' : Meaning}
    (first : scope.Denotes arguments name m)
    (second : scope.Denotes arguments name m') : m = m' := by
  -- parameters are not free, and variables of one name are of one kind
  have declaredTwice : ∀ {v w : Variable}, v ∈ scope.table.entries →
      v.name = name → w ∈ scope.table.entries → w.name = name → v = w :=
    fun hv nv hw nw => ascending.eq_of_name hv hw (nv.trans nw.symm)
  cases first with
  | parameter found given =>
    cases second with
    | parameter found' given' =>
      rw [found] at found'
      cases found'
      rw [given] at given'
      cases given'
      rfl
    | vector free | float free | subFormula free | undeclared free =>
      exact absurd (found.symm.trans free) (by simp)
  | vector free hv nv kind =>
    cases second with
    | parameter found _ => exact absurd (found.symm.trans free) (by simp)
    | vector _ hw nw _ => rw [declaredTwice hv nv hw nw]
    | float _ hw nw kind' | subFormula _ hw nw kind' _ =>
      rw [declaredTwice hv nv hw nw, kind'] at kind
      cases kind
    | undeclared _ absent _ => exact absurd nv (absent _ hv)
  | float free hv nv kind =>
    cases second with
    | parameter found _ => exact absurd (found.symm.trans free) (by simp)
    | float _ hw nw _ => rw [declaredTwice hv nv hw nw]
    | vector _ hw nw kind' | subFormula _ hw nw kind' _ =>
      rw [declaredTwice hv nv hw nw, kind'] at kind
      cases kind
    | undeclared _ absent _ => exact absurd nv (absent _ hv)
  | subFormula free hv nv kind read =>
    cases second with
    | parameter found _ => exact absurd (found.symm.trans free) (by simp)
    | subFormula _ hw nw _ read' =>
      rw [declaredTwice hv nv hw nw, read'] at read
      cases read
      rfl
    | vector _ hw nw kind' | float _ hw nw kind' =>
      rw [declaredTwice hv nv hw nw, kind'] at kind
      cases kind
    | undeclared _ absent _ => exact absurd nv (absent _ hv)
  | undeclared free absent _ =>
    cases second with
    | parameter found _ => exact absurd (found.symm.trans free) (by simp)
    | undeclared => rfl
    | vector _ hw nw _ | float _ hw nw _ | subFormula _ hw nw _ _ =>
      exact absurd nw (absent _ hw)

/-! ## Expressions -/

/-- `Evaluates scope arguments e r`: the value of an expression is `r`, or
one of its operations stops with the fault `r`. -/
inductive Evaluates (scope : Scope) (arguments : List Vec3) :
    Expr → Except Fault Vec3 → Prop
  | constant (value : Float32) :
    Evaluates scope arguments (.constant value) (.ok (.splat value))
  | value {name v} :
    scope.Denotes arguments name (.value v) →
    Evaluates scope arguments (.reference name) (.ok v)
  | tree {name e r} :
    scope.Denotes arguments name (.tree e) →
    Evaluates scope arguments e r →
    Evaluates scope arguments (.reference name) r
  | plus {e r} :
    Evaluates scope arguments e r →
    Evaluates scope arguments (.unary .plus e) r
  | minus {e r} :
    Evaluates scope arguments e r →
    Evaluates scope arguments (.unary .minus e) (Opcode.negate.combine [r])
  | binary {left right a b} (op : BinaryOp) :
    Evaluates scope arguments left a →
    Evaluates scope arguments right b →
    Evaluates scope arguments (.binary op left right)
      (op.opcode.combine [a, b])
  | call {function es rs opcode} :
    Functions.resolve function es.length = .ok opcode →
    rs.length = es.length →
    (∀ p ∈ es.zip rs, Evaluates scope arguments p.1 p.2) →
    Evaluates scope arguments (.call function es) (opcode.combine rs)

/-- An expression has one value. -/
theorem Evaluates.unique {scope : Scope} {arguments : List Vec3}
    (ascending : scope.table.Ascending) {e : Expr} {r r' : Except Fault Vec3}
    (first : Evaluates scope arguments e r)
    (second : Evaluates scope arguments e r') : r = r' := by
  induction first generalizing r' with
  | constant value =>
    cases second
    rfl
  | value denotes =>
    cases second with
    | value denotes' =>
      cases denotes.unique ascending denotes'
      rfl
    | tree denotes' _ => cases denotes.unique ascending denotes'
  | tree denotes _ ih =>
    cases second with
    | value denotes' => cases denotes.unique ascending denotes'
    | tree denotes' evaluated =>
      cases denotes.unique ascending denotes'
      exact ih evaluated
  | plus _ ih =>
    cases second with
    | plus evaluated => exact ih evaluated
  | minus _ ih =>
    cases second with
    | minus evaluated => rw [ih evaluated]
  | binary op _ _ ihLeft ihRight =>
    cases second with
    | binary _ left right => rw [ihLeft left, ihRight right]
  | @call function es rs opcode resolved count _ ih =>
    cases second with
    | @call _ _ rs' opcode' resolved' count' evaluated =>
      rw [resolved] at resolved'
      cases resolved'
      -- the operands are as many, and agree one by one
      have same : rs = rs' := by
        refine List.ext_getElem (count.trans count'.symm) fun i inside inside' => ?_
        have present : i < es.length := by omega
        refine ih (es[i], rs[i]) ?_ (evaluated (es[i], rs'[i]) ?_)
        · exact List.mem_iff_getElem.mpr ⟨i, by simp; omega, by simp⟩
        · exact List.mem_iff_getElem.mpr ⟨i, by simp; omega, by simp⟩
      rw [same]

/-! ## Faults -/

theorem BinaryOp.arity_opcode (op : BinaryOp) : op.opcode.arity = 2 := by
  cases op <;> rfl

/-- The operation of a call takes operands. -/
theorem Functions.arity_pos_of_resolve {function : String} {count : Nat}
    {opcode : Opcode} (found : resolve function count = .ok opcode) :
    0 < opcode.arity := by
  unfold resolve at found
  simp only at found
  split at found
  · cases found
  · split at found
    · next candidate member =>
      cases found
      have named := List.mem_of_find?_eq_some member
      rw [overloads, List.mem_filter] at named
      have called := named.2
      cases opcode <;> first | decide | cases called
    · cases found

/-- Evaluation can only stop at undefined noise. -/
theorem Evaluates.error {scope : Scope} {arguments : List Vec3} {e : Expr}
    {r : Except Fault Vec3} (evaluated : Evaluates scope arguments e r)
    {fault : Fault} (stopped : r = .error fault) : fault = .noiseUndefined := by
  induction evaluated generalizing fault with
  | constant | value => cases stopped
  | tree _ _ ih => exact ih stopped
  | plus _ ih => exact ih stopped
  | minus _ ih =>
    refine Opcode.combine_error (by decide) rfl (fun f member => ?_) stopped
    exact ih (List.mem_singleton.mp member).symm
  | binary op _ _ ihLeft ihRight =>
    have two := op.arity_opcode
    refine Opcode.combine_error ?_ ?_ (fun f member => ?_) stopped
    · rw [two]
      decide
    · exact two.symm
    rcases List.mem_cons.mp member with first | second
    · exact ihLeft first.symm
    · exact ihRight (List.mem_singleton.mp second).symm
  | @call function es rs opcode resolved count _ ih =>
    refine Opcode.combine_error (Functions.arity_pos_of_resolve resolved)
      (count.trans (Functions.arity_of_resolve resolved).symm)
      (fun f member => ?_) stopped
    obtain ⟨i, inside, found⟩ := List.mem_iff_getElem.mp member
    have present : i < es.length := by omega
    refine ih (es[i], rs[i]) ?_ found
    exact List.mem_iff_getElem.mpr ⟨i, by simp; omega, by simp⟩

end FieldMesh.Formula
