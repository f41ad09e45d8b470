import FieldMesh.Formula.Translation

/-!
# What emission puts out

`emit` is a recursion in a monad with errors and a log. Its successful runs
are described here once and for all by an inductive relation without monads,
in which a whole list of expressions is waiting to be put out, from right to
left: an operation is put out by making its operands wait in its place.

* `Emit.Meets`: what a step promises, of its log if it succeeds and of its
  error if it fails;
* `run_emit_undeclared`, `run_emit_constant`, `run_emit_subFormula`: what comes
  of a name that stands for no parameter;
* `Emit.meets_reference`: the same as a rule, for inductions to cite in place of
  the case splits of `emit`;
* `Emits`: the relation, one rule for each way in which an expression can be
  put out;
* `emits_of_emit`: whatever `emit` puts out is put out by these rules;
* `failsWith_emit`: where it fails, the error is one of names, calls or
  texts.
-/

namespace FieldMesh.Formula

open FieldMesh.Program (Instruction Opcode)
open FieldMesh.Text

/-! ## Steps with a log -/

/-- A step after a step goes on with the log that the first one left. -/
theorem Emit.run_bind {α β : Type} (x : Emit α) (f : α → Emit β) (log : Log) :
    (x >>= f).run log = match x.run log with
      | (.ok a, mid) => (f a).run mid
      | (.error e, mid) => (.error e, mid) := by
  show (match ExceptT.run x log with
    | (result, mid) => ExceptT.bindCont f result mid) = _
  rcases ExceptT.run x log with ⟨_ | a, mid⟩ <;> rfl

theorem Emit.run_bind_of_ok {α β : Type} {x : Emit α} {f : α → Emit β}
    {log mid : Log} {a : α} (first : x.run log = (.ok a, mid)) :
    (x >>= f).run log = (f a).run mid := by
  rw [run_bind, first]

theorem Emit.lift_ok {α : Type} {x : Except CompileError α} {log final : Log}
    {a : α} :
    (liftM x : Emit α).run log = (.ok a, final) ↔ x = .ok a ∧ log = final := by
  cases x with
  | error e =>
    constructor
    · intro failed
      cases failed
    · rintro ⟨failed, -⟩
      cases failed
  | ok b =>
    constructor
    · intro done
      cases done
      exact ⟨rfl, rfl⟩
    · rintro ⟨same, rfl⟩
      cases same
      rfl

/-! ## Promises -/

/-- From a log, a step that succeeds gives what `post` says, and one that
fails gives an error that `blame` says. -/
def Emit.Meets {α : Type} (log : Log) (x : Emit α) (post : α → Log → Prop)
    (blame : CompileError → Prop) : Prop :=
  match x.run log with
  | (.ok a, after) => post a after
  | (.error failure, _) => blame failure

namespace Emit

variable {α β : Type} {log : Log} {post : α → Log → Prop}
  {blame : CompileError → Prop}

theorem meets_bind {x : Emit β} {f : β → Emit α}
    (first : Meets log x (fun b mid => Meets mid (f b) post blame) blame) :
    Meets log (x >>= f) post blame := by
  unfold Meets at first ⊢
  rw [run_bind]
  rcases ran : x.run log with ⟨_ | b, mid⟩ <;> rw [ran] at first <;>
    exact first

theorem meets_pure {a : α} (holds : post a log) :
    Meets log (pure a) post blame := holds

theorem meets_lift {x : Except CompileError α}
    (ok : ∀ a, x = .ok a → post a log)
    (error : ∀ failure, x = .error failure → blame failure) :
    Meets log (liftM x : Emit α) post blame := by
  cases x with
  | ok a => exact ok a rfl
  | error failure => exact error failure rfl

theorem Meets.mono {x : Emit α} {post' : α → Log → Prop}
    (meets : Meets log x post blame)
    (weaker : ∀ a after, post a after → post' a after) :
    Meets log x post' blame := by
  unfold Meets at meets ⊢
  split
  · next a after ran =>
    rw [ran] at meets
    exact weaker a after meets
  · next failure after ran =>
    rw [ran] at meets
    exact meets

theorem Meets.of_ok {x : Emit α} (meets : Meets log x post blame) {a : α}
    {after : Log} (ran : x.run log = (.ok a, after)) : post a after := by
  unfold Meets at meets
  rwa [ran] at meets

theorem Meets.of_error {x : Emit α} (meets : Meets log x post blame)
    {failure : CompileError} {after : Log}
    (ran : x.run log = (.error failure, after)) : blame failure := by
  unfold Meets at meets
  rwa [ran] at meets

end Emit

/-! ## Names -/

/-- Whether a name stands for no parameter. -/
def Scope.Free (scope : Scope) (name : String) : Prop :=
  scope.parameters.findIdx? (· == name) = none

section

variable {scope : Scope} {path : List String} {name : String} {v : Variable}

/-- What is put out for a name without a declaration: nothing, if it has to be a
sub-formula. -/
theorem run_emit_undeclared (free : scope.Free name)
    (absent : scope.table.find? name = none) (log : Log) :
    (emit scope path (.reference name)).run log =
      (if (Variable.implied (lower name)).kind = .subFormula then
        (.error (.emptySubFormula (lower name)), log.use name)
      else (.ok [.const (Variable.implied (lower name)).constant], log.use name)) := by
  rw [emit, free]
  show (_ : Emit (List Instruction)).run (log.use name) = _
  split
  · simp only [Variable.named_eq_implied]
    by_cases constant : (Variable.implied (lower name)).kind = .subFormula
    · simp only [constant, if_true]
      rfl
    · simp only [constant, if_false]
      rfl
  · next v found => cases absent.symm.trans found

/-- A number or a vector is put out itself. -/
theorem run_emit_constant (free : scope.Free name)
    (found : scope.table.find? name = some v) (constant : v.kind ≠ .subFormula)
    (log : Log) :
    (emit scope path (.reference name)).run log =
      (.ok [.const v.constant], log.use name) := by
  rw [emit, free]
  show (_ : Emit (List Instruction)).run (log.use name) = _
  split
  · next absent => cases absent.symm.trans found
  · next w found' =>
    cases found.symm.trans found'
    rw [if_pos constant]
    rfl

/-- A sub-formula is put out as what loads its result, after the block that it
may still need. -/
theorem run_emit_subFormula (free : scope.Free name)
    (found : scope.table.find? name = some v) (kind : v.kind = .subFormula)
    (log : Log) :
    (emit scope path (.reference name)).run log =
      if path.contains name then
        (.error (.recursiveDefinition name), log.use name)
      else match log.slots.lookup name with
        | some slot => (.ok [.load slot], log.use name)
        | none => match v.tree with
          | .error failure => (.error failure, log.use name)
          | .ok tree =>
            match (emit scope (name :: path) tree).run
                ((log.use name).noteRead name) with
            | (.error failure, after) => (.error failure, after)
            | (.ok block, after) =>
              if after.blocks.length < 255 then
                (.ok [.load (UInt8.ofNat (after.blocks.length + 1))],
                  after.complete name (UInt8.ofNat (after.blocks.length + 1))
                    block)
              else (.error .tooManySubFormulas, after) := by
  rw [emit, free]
  show (_ : Emit (List Instruction)).run (log.use name) = _
  split
  · next absent => cases absent.symm.trans found
  next w found' =>
  cases found.symm.trans found'
  rw [if_neg (not_not_intro kind)]
  cases path.contains name with
  | true => rfl
  | false =>
    refine (Emit.run_bind_of_ok
      (show _ = (Except.ok (log.use name), log.use name) from rfl)).trans ?_
    cases has : log.slots.lookup name with
    | some slot =>
      have has' : (log.use name).slots.lookup name = some slot := has
      rw [has']
      rfl
    | none =>
      have lacks : (log.use name).slots.lookup name = none := has
      rw [lacks]
      cases v.tree with
      | error failure => rfl
      | ok tree =>
        refine (Emit.run_bind_of_ok (Emit.lift_ok.mpr ⟨rfl, rfl⟩)).trans ?_
        refine (Emit.run_bind_of_ok
          (show _ = (Except.ok (), (log.use name).noteRead name) from rfl)).trans ?_
        rw [Emit.run_bind]
        simp only [Bool.false_eq_true, if_false]
        rcases (emit scope (name :: path) tree).run
          ((log.use name).noteRead name) with ⟨failure | block, after⟩
        · rfl
        refine (Emit.run_bind_of_ok
          (show _ = (Except.ok after, after) from rfl)).trans ?_
        by_cases fits : after.blocks.length < 255
        · simp only [if_pos fits,
            if_neg (show ¬ 255 < after.blocks.length + 1 by omega)]
          rfl
        · simp only [if_neg fits,
            if_pos (show 255 < after.blocks.length + 1 by omega)]
          rfl

end

/-- What can come of a name that stands for no parameter. -/
theorem Emit.meets_reference {scope : Scope} {path : List String} {name : String}
    {log : Log} {post : List Instruction → Log → Prop}
    {blame : CompileError → Prop} (free : scope.Free name)
    (missing : scope.table.find? name = none →
      (Variable.implied (lower name)).kind = .subFormula →
      blame (.emptySubFormula (Variable.implied (lower name)).name))
    (undeclared : scope.table.find? name = none →
      (Variable.implied (lower name)).kind ≠ .subFormula →
      post [.const (Variable.implied (lower name)).constant] (log.use name))
    (declared : ∀ v, scope.table.find? name = some v → v.kind ≠ .subFormula →
      post [.const v.constant] (log.use name))
    (cycle : ∀ v, scope.table.find? name = some v → v.kind = .subFormula →
      path.contains name = true → blame (.recursiveDefinition name))
    (shared : ∀ v slot, scope.table.find? name = some v → v.kind = .subFormula →
      path.contains name = false → log.slots.lookup name = some slot →
      post [.load slot] (log.use name))
    (unread : ∀ v failure, scope.table.find? name = some v →
      v.kind = .subFormula → v.tree = .error failure → blame failure)
    (block : ∀ v tree, scope.table.find? name = some v → v.kind = .subFormula →
      path.contains name = false → log.slots.lookup name = none →
      v.tree = .ok tree →
      Meets ((log.use name).noteRead name) (emit scope (name :: path) tree)
        (fun block after =>
          if after.blocks.length < 255 then
            post [.load (UInt8.ofNat (after.blocks.length + 1))]
              (after.complete name (UInt8.ofNat (after.blocks.length + 1)) block)
          else blame .tooManySubFormulas) blame) :
    Meets log (emit scope path (.reference name)) post blame := by
  unfold Meets
  cases found : scope.table.find? name with
  | none =>
    rw [run_emit_undeclared free found]
    by_cases kind : (Variable.implied (lower name)).kind = .subFormula
    · rw [if_pos kind]
      exact missing found kind
    · rw [if_neg kind]
      exact undeclared found kind
  | some v =>
    by_cases kind : v.kind = .subFormula
    · rw [run_emit_subFormula free found kind]
      cases inProgress : path.contains name with
      | true => exact cycle v found kind inProgress
      | false =>
        cases has : log.slots.lookup name with
        | some slot => exact shared v slot found kind inProgress has
        | none =>
          cases read : v.tree with
          | error failure => exact unread v failure found kind read
          | ok tree =>
            have promised := block v tree found kind inProgress has read
            unfold Meets at promised
            simp only [Bool.false_eq_true, if_false]
            rcases ran : (emit scope (name :: path) tree).run
              ((log.use name).noteRead name) with ⟨failure | code, after⟩
            · rw [ran] at promised
              exact promised
            rw [ran] at promised
            by_cases fits : after.blocks.length < 255
            · simp only [if_pos fits] at promised ⊢
              exact promised
            · simp only [if_neg fits] at promised ⊢
              exact promised
    · rw [run_emit_constant free found kind]
      exact declared v found kind

/-! ## The rules -/

/-- `Emits scope path log es code log'`: with the sub-formulas of `path` being
translated, the expressions `es` are put out as `code`, the last of them
first, and the log grows from `log` to `log'`. -/
inductive Emits (scope : Scope) :
    List String → Log → List Expr → List Instruction → Log → Prop
  | nil {path log} : Emits scope path log [] [] log
  | constant {path log es code log'} (value : Float32) :
    Emits scope path log es code log' →
    Emits scope path log (.constant value :: es)
      (code ++ [.const (Vec3.splat value)]) log'
  | parameter {path log es code log' name index} :
    scope.parameters.findIdx? (· == name) = some index →
    Emits scope path log es code log' →
    Emits scope path log (.reference name :: es)
      (code ++ [.param (UInt8.ofNat index)]) log'
  /-- A name without a variable: it is declared as a constant. -/
  | undeclared {path log es code log' name} :
    scope.Free name →
    scope.table.find? name = none →
    (Variable.implied (lower name)).kind ≠ .subFormula →
    Emits scope path log es code log' →
    Emits scope path log (.reference name :: es)
      (code ++ [.const (Variable.implied (lower name)).constant]) (log'.use name)
  | declared {path log es code log' name v} :
    scope.Free name →
    scope.table.find? name = some v →
    v.kind ≠ .subFormula →
    Emits scope path log es code log' →
    Emits scope path log (.reference name :: es)
      (code ++ [.const v.constant]) (log'.use name)
  /-- A sub-formula that has a block already. -/
  | shared {path log es code log' name v slot} :
    scope.Free name →
    scope.table.find? name = some v →
    v.kind = .subFormula →
    path.contains name = false →
    log'.slots.lookup name = some slot →
    Emits scope path log es code log' →
    Emits scope path log (.reference name :: es)
      (code ++ [.load slot]) (log'.use name)
  /-- A sub-formula that gets its block now. -/
  | block {path log es code log' name v tree block log''} :
    scope.Free name →
    scope.table.find? name = some v →
    v.kind = .subFormula →
    path.contains name = false →
    log'.slots.lookup name = none →
    v.tree = .ok tree →
    log''.blocks.length < 255 →
    Emits scope path log es code log' →
    Emits scope (name :: path) ((log'.use name).noteRead name) [tree] block
      log'' →
    Emits scope path log (.reference name :: es)
      (code ++ [.load (UInt8.ofNat (log''.blocks.length + 1))])
      (log''.complete name (UInt8.ofNat (log''.blocks.length + 1)) block)
  | plus {path log e es code log'} :
    Emits scope path log (e :: es) code log' →
    Emits scope path log (.unary .plus e :: es) code log'
  | minus {path log e es code log'} :
    Emits scope path log (e :: es) code log' →
    Emits scope path log (.unary .minus e :: es) (code ++ [.op .negate]) log'
  | binary {path log left right es code log'} (op : BinaryOp) :
    Emits scope path log (left :: right :: es) code log' →
    Emits scope path log (.binary op left right :: es)
      (code ++ [.op op.opcode]) log'
  | call {path log function arguments es code log' opcode} :
    Functions.resolve function arguments.length = .ok opcode →
    Emits scope path log (arguments ++ es) code log' →
    Emits scope path log (.call function arguments :: es)
      (code ++ [.op opcode]) log'

/-! ## Emission follows the rules -/

/-- What `emit` puts out goes after what was put out for the expressions to
the right. -/
theorem emits_append (scope : Scope) :
    (∀ path e, ∀ {prior es later log}, Emits scope path prior es later log →
      Emit.Meets log (emit scope path e)
        (fun code after => Emits scope path prior (e :: es) (later ++ code) after)
        fun _ => True) ∧
    (∀ path arguments, ∀ {prior es later log},
      Emits scope path prior es later log →
      Emit.Meets log (emitAll scope path arguments)
        (fun code after =>
          Emits scope path prior (arguments ++ es) (later ++ code) after)
        fun _ => True) := by
  apply emit.mutual_induct scope
  case case1 =>
    intro path value prior es later log before
    rw [emit]
    exact Emit.meets_pure (.constant value before)
  case case2 =>
    intro path name index found prior es later log before
    rw [emit, found]
    exact Emit.meets_pure (.parameter found before)
  case case3 =>
    intro path name free nested prior es later log before
    refine Emit.meets_reference free (fun _ _ => trivial) ?undeclared ?declared
      (fun _ _ _ _ => trivial) ?shared (fun _ _ _ _ _ => trivial) ?block
    case undeclared =>
      intro absent constant
      exact .undeclared free absent constant before
    case declared =>
      intro v found constant
      exact .declared free found constant before
    case shared =>
      intro v slot found kind outside has
      exact .shared free found kind outside has before
    case block =>
      intro v tree found kind outside lacks read
      -- blocks start with no code of their own
      refine (nested v found (by simpa using outside) tree .nil).mono
        fun block after rule => ?_
      split
      · next fits =>
        exact .block free found kind outside lacks read fits before
          (by simpa using rule)
      · trivial
  case case4 =>
    intro path op operand ih prior es later log before
    rw [emit]
    refine Emit.meets_bind ((ih before).mono fun code after rule => ?_)
    cases op with
    | plus => exact Emit.meets_pure (.plus rule)
    | minus =>
      refine Emit.meets_pure ?_
      rw [← List.append_assoc]
      exact .minus rule
  case case5 =>
    intro path op left right ihRight ihLeft prior es later log before
    rw [emit]
    -- the right operand comes first, so that the left one ends on top
    refine Emit.meets_bind ((ihRight before).mono fun second mid rule => ?_)
    refine Emit.meets_bind ((ihLeft rule).mono fun first after rule => ?_)
    refine Emit.meets_pure ?_
    rw [← List.append_assoc, ← List.append_assoc]
    exact .binary op rule
  case case6 =>
    intro path function arguments ih prior es later log before
    rw [emit]
    refine Emit.meets_bind (Emit.meets_lift (fun opcode resolved => ?_)
      fun _ _ => trivial)
    refine Emit.meets_bind ((ih before).mono fun code after rule => ?_)
    refine Emit.meets_pure ?_
    rw [← List.append_assoc]
    exact .call resolved rule
  case case7 =>
    intro path prior es later log before
    rw [emitAll]
    exact Emit.meets_pure (by simpa using before)
  case case8 =>
    intro path e rest ihRest ih prior es later log before
    rw [emitAll]
    refine Emit.meets_bind ((ihRest before).mono fun tail mid rule => ?_)
    refine Emit.meets_bind ((ih rule).mono fun first after rule => ?_)
    refine Emit.meets_pure ?_
    rw [← List.append_assoc]
    exact rule

/-- Whatever `emit` puts out is put out by the rules. -/
theorem emits_of_emit {scope : Scope} {path : List String} {e : Expr}
    {log log' : Log} {code : List Instruction}
    (done : (emit scope path e).run log = (.ok code, log')) :
    Emits scope path log [e] code log' := by
  simpa using ((emits_append scope).1 path e .nil).of_ok done

/-! ## Sub-formulas -/

/-- The first use of a sub-formula gives it a block. -/
theorem run_emit_block {scope : Scope} {path : List String} {name : String}
    {v : Variable} {tree : Expr} {block : List Instruction} {log log' : Log}
    (free : scope.Free name) (found : scope.table.find? name = some v)
    (kind : v.kind = .subFormula) (outside : path.contains name = false)
    (lacks : log.slots.lookup name = none) (read : v.tree = .ok tree)
    (inner : (emit scope (name :: path) tree).run
      ((log.use name).noteRead name) = (.ok block, log'))
    (fits : log'.blocks.length < 255) :
    (emit scope path (.reference name)).run log =
      (.ok [.load (UInt8.ofNat (log'.blocks.length + 1))],
        log'.complete name (UInt8.ofNat (log'.blocks.length + 1)) block) := by
  rw [run_emit_subFormula free found kind, outside, lacks, read]
  simp only [Bool.false_eq_true, if_false, inner, if_pos fits]

/-- Every later use loads its result. -/
theorem run_emit_shared {scope : Scope} {path : List String} {name : String}
    {v : Variable} {slot : UInt8} {log : Log}
    (free : scope.Free name) (found : scope.table.find? name = some v)
    (kind : v.kind = .subFormula) (outside : path.contains name = false)
    (has : log.slots.lookup name = some slot) :
    (emit scope path (.reference name)).run log =
      (.ok [.load slot], log.use name) := by
  rw [run_emit_subFormula free found kind, outside, has]
  rfl

/-! ## Failures -/

/-- Whenever a step fails, its error has a property. -/
def Emit.FailsWith {α : Type} (P : CompileError → Prop) (x : Emit α) : Prop :=
  ∀ log e final, x.run log = (.error e, final) → P e

/-- An error about names, calls or texts, and not about instructions. -/
def CompileError.OfText (e : CompileError) : Prop :=
  ∀ reason, e ≠ .invalidProgram reason

theorem Functions.ofText_of_resolve {name : String} {arguments : Nat}
    {e : CompileError} (failed : resolve name arguments = .error e) :
    e.OfText := by
  unfold resolve at failed
  simp only at failed
  split at failed
  · cases failed
    nofun
  · split at failed
    · cases failed
    · cases failed
      nofun

theorem Variable.ofText_of_tree {v : Variable} {e : CompileError}
    (failed : v.tree = .error e) : e.OfText := by
  unfold tree readTree at failed
  split at failed
  · cases failed
  · split at failed
    · cases failed
      nofun
    · cases failed
      nofun
    · cases failed

/-- `emit` fails at names, calls and texts only. -/
theorem failsWith_emit (scope : Scope) :
    (∀ path e, Emit.FailsWith CompileError.OfText (emit scope path e)) ∧
    (∀ path arguments,
      Emit.FailsWith CompileError.OfText (emitAll scope path arguments)) := by
  suffices meets : (∀ path e log, Emit.Meets log (emit scope path e)
      (fun _ _ => True) CompileError.OfText) ∧
      (∀ path arguments log, Emit.Meets log (emitAll scope path arguments)
        (fun _ _ => True) CompileError.OfText) from
    ⟨fun path e log _ _ failed => (meets.1 path e log).of_error failed,
      fun path es log _ _ failed => (meets.2 path es log).of_error failed⟩
  apply emit.mutual_induct scope
  case case1 =>
    intro path value log
    rw [emit]
    exact Emit.meets_pure trivial
  case case2 =>
    intro path name index found log
    rw [emit, found]
    exact Emit.meets_pure trivial
  case case3 =>
    intro path name free nested log
    refine Emit.meets_reference free ?missing (fun _ _ => trivial)
      (fun _ _ _ => trivial) ?cycle (fun _ _ _ _ _ _ => trivial) ?unread ?block
    case missing => exact fun _ _ => nofun
    case cycle => exact fun _ _ _ _ => nofun
    case unread => exact fun _ _ _ _ => Variable.ofText_of_tree
    case block =>
      intro v tree found _ outside _ _
      refine (nested v found (by simpa using outside) tree _).mono
        fun block after _ => ?_
      split
      · trivial
      · nofun
  case case4 =>
    intro path op operand ih log
    rw [emit]
    refine Emit.meets_bind ((ih log).mono fun code mid _ => ?_)
    cases op <;> exact Emit.meets_pure trivial
  case case5 =>
    intro path op left right ihRight ihLeft log
    rw [emit]
    refine Emit.meets_bind ((ihRight log).mono fun _ mid _ => ?_)
    exact Emit.meets_bind ((ihLeft mid).mono fun _ _ _ => Emit.meets_pure trivial)
  case case6 =>
    intro path function arguments ih log
    rw [emit]
    refine Emit.meets_bind (Emit.meets_lift (fun opcode _ => ?_)
      fun _ => Functions.ofText_of_resolve)
    exact Emit.meets_bind ((ih log).mono fun _ _ _ => Emit.meets_pure trivial)
  case case7 =>
    intro path log
    rw [emitAll]
    exact Emit.meets_pure trivial
  case case8 =>
    intro path e rest ihRest ih log
    rw [emitAll]
    refine Emit.meets_bind ((ihRest log).mono fun _ mid _ => ?_)
    exact Emit.meets_bind ((ih mid).mono fun _ _ _ => Emit.meets_pure trivial)

/-- So does translation. -/
theorem ofText_of_translate {table : VariableTable} {parameters : List String}
    {e : Expr} {failure : CompileError}
    (failed : (translate table parameters e).1 = .error failure) :
    failure.OfText := by
  unfold translate at failed
  split at failed
  · cases failed
    nofun
  · simp only at failed
    cases run : (emit ⟨parameters.map lower, table⟩ [] e).run {} with
    | mk result log =>
      rw [run] at failed
      cases result with
      | ok main => cases failed
      | error failure' =>
        cases failed
        exact (failsWith_emit _).1 [] e {} failure log run

end FieldMesh.Formula
