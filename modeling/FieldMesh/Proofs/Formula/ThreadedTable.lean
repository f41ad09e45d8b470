import FieldMesh.Proofs.Formula.Recompilation

/-!
# Declaring while searching

`emit` reads a table that does not change, and `VariableTable.learn` declares
and keeps afterwards. Here is the translation as one pass over one table: a
name is declared where it is searched for, a tree is kept where it is read,
and a mark stands for each sub-formula from when its tree is opened. How many
trees may be open in each other is bounded; a pass that would open more has no
result.

* `Translator`: what the pass works on; `Translator.emit`: the pass;
* `VariableTable.findOrInsert_learn`, `VariableTable.modify_learn`: what is done
  to a table at once and what is learned in the end;
* `Translator.Follows`: how the pass stands beside a log;
* `Translator.traces_emit`: both do the same, step by step;
* **main result**: `Translator.translate_eq`.
-/

namespace FieldMesh.Formula

open FieldMesh.Program (Instruction)
open FieldMesh.Text

/-! ## The pass -/

/-- How far the block of a sub-formula is. -/
inductive SlotState where
  | inProgress
  | resolved (slot : UInt8)

/-- What a translation works on. -/
structure Translator where
  table : VariableTable
  /-- The sub-formulas that were opened; the latest mark counts. -/
  slots : List (String × SlotState) := []
  blocks : List (List Instruction) := []
  used : Names := []

namespace Translator

/-- A step of translation: it can fail, and it may be given up. -/
abbrev Step := ExceptT CompileError (StateT Translator Option)

/-- Finds a variable, declares it if it is not there, and notes that it is
used. -/
def declare (t : Translator) (name : String) : Translator :=
  { t with table := (t.table.findOrInsert name).2, used := t.used.insert name }

/-- Marks a sub-formula as being translated. -/
def mark (t : Translator) (name : String) : Translator :=
  { t with slots := (name, .inProgress) :: t.slots }

/-- Keeps the tree of the variable at a place. -/
def keepAt (t : Translator) (index : Nat) : Translator :=
  { t with table := ⟨t.table.entries.modify index Variable.keepTree⟩ }

/-- Gives a completed block to a sub-formula. -/
def complete (t : Translator) (name : String) (slot : UInt8)
    (block : List Instruction) : Translator :=
  { t with
    slots := (name, .resolved slot) :: t.slots
    blocks := t.blocks ++ [block] }

section

variable (block : Expr → Step (List Instruction)) (parameters : List String)

mutual

/-- Puts out the instructions of an expression; `block` puts out those of a tree
that is opened. -/
def emit : Expr → Step (List Instruction)
  | .constant value => return [.const (Vec3.splat value)]
  | .reference name =>
    match parameters.findIdx? (· == name) with
    | some index => return [.param (UInt8.ofNat index)]
    | none => do
      let index := ((← get).table.findOrInsert name).1
      modify (·.declare name)
      match (← get).table.entries[index]? with
      | none => fun _ => none
      | some v =>
        if v.kind ≠ .subFormula then return [.const v.constant]
        match (← get).slots.lookup name with
        | some .inProgress => throw (.recursiveDefinition name)
        | some (.resolved slot) => return [.load slot]
        | none =>
          modify (·.mark name)
          let tree ← v.tree
          modify (·.keepAt index)
          let block ← block tree
          let position := (← get).blocks.length + 1
          if 255 < position then throw .tooManySubFormulas
          let slot := UInt8.ofNat position
          modify (·.complete name slot block)
          return [.load slot]
  | .unary op operand => do
    let code ← emit operand
    match op with
    | .plus => return code
    | .minus => return code ++ [.op .negate]
  | .binary op left right => do
    let second ← emit right
    let first ← emit left
    return second ++ first ++ [.op op.opcode]
  | .call function arguments => do
    let opcode ← Functions.resolve function arguments.length
    let code ← emitAll arguments
    return code ++ [.op opcode]

/-- Puts out the instructions of arguments, from right to left. -/
def emitAll : List Expr → Step (List Instruction)
  | [] => return []
  | e :: rest => do
    let later ← emitAll rest
    let first ← emit e
    return later ++ first

end

end

/-- Puts out the instructions of a tree that is opened. Others may be opened in
it, each in the one before, as deep as is allowed. -/
def blockWithin (parameters : List String) : Nat → Expr → Step (List Instruction)
  | 0 => fun _ _ => none
  | depth + 1 => emit (blockWithin parameters depth) parameters

/-! ## Single steps -/

variable {α β : Type}

/-- A step after a step goes on with what the first one left. -/
theorem run_bind (x : Step α) (f : α → Step β) (t : Translator) :
    (x >>= f).run.run t = match x.run.run t with
      | none => none
      | some (.ok a, mid) => (f a).run.run mid
      | some (.error failure, mid) => some (.error failure, mid) := by
  show (x.run.run t).bind (fun p => ExceptT.bindCont f p.1 p.2) = _
  rcases x.run.run t with _ | ⟨_ | a, mid⟩ <;> rfl

theorem run_bind_of_ok {x : Step α} {f : α → Step β} {t mid : Translator} {a : α}
    (first : x.run.run t = some (.ok a, mid)) :
    (x >>= f).run.run t = (f a).run.run mid := by
  rw [run_bind, first]

end Translator

/-! ## Learning at once -/

namespace VariableTable

variable {table : VariableTable} {log : Log} {name : String}

theorem lowered_use (lowered : ∀ name ∈ log.used, lower name = name)
    (folded : lower name = name) :
    ∀ other ∈ (log.use name).used, lower other = other := by
  intro other member
  rcases Log.mem_use.mp member with rfl | old
  · exact folded
  · exact lowered other old

/-- A name that is searched for is declared at once. -/
theorem findOrInsert_learn (sound : table.Sound)
    (lowered : ∀ name ∈ log.used, lower name = name)
    (folded : lower name = name) :
    ((table.learn log).findOrInsert name).2 = table.learn (log.use name) := by
  obtain ⟨before, known⟩ := find?_learn sound lowered
  obtain ⟨after, known'⟩ := find?_learn sound (lowered_use lowered folded)
  refine (before.findOrInsert folded).ascending.ext after.ascending fun other => ?_
  rw [find?_findOrInsert before folded, known, known, known']
  have textless : (Variable.named name).keepTree = .named name := by
    have empty : parse "" = .ok none := by with_unfolding_all rfl
    simp only [Variable.keepTree, Variable.tree, Variable.readTree, Variable.named,
      empty]
  by_cases here : other = name
  · subst here
    have unread : (log.use other).read = log.read := rfl
    simp only [if_true, Log.mem_use, true_or, unread]
    -- what was not declared before has no tree that could be kept
    cases table.find? other with
    | none => by_cases used : other ∈ log.used <;> by_cases read : other ∈ log.read <;>
        simp [used, read, textless]
    | some v => by_cases used : other ∈ log.used <;> by_cases read : other ∈ log.read <;>
        simp [used, read]
  · have unread : (log.use name).read = log.read := rfl
    simp only [here, if_false, Log.mem_use, false_or, unread]

/-- At the place that a search gives there is a variable of the name, which says
what the name stands for. -/
theorem entry_learn (sound : table.Sound)
    (lowered : ∀ name ∈ log.used, lower name = name)
    (folded : lower name = name) :
    ∃ v, (table.learn (log.use name)).entries[
        ((table.learn log).findOrInsert name).1]? = some v ∧
      v.name = name ∧ v.Fresh ∧ v.declaration = table.meaning name := by
  obtain ⟨v, entry, called⟩ : ∃ v, ((table.learn log).findOrInsert name).2.entries[
      ((table.learn log).findOrInsert name).1]? = some v ∧ v.name = name :=
    (findOrInsert_eq (find?_learn sound lowered).1 folded).1
  rw [findOrInsert_learn sound lowered folded] at entry
  have member := List.mem_of_getElem? entry
  have lowered' := lowered_use lowered folded
  have after := (find?_learn sound lowered').1
  have found := (find?_eq_some_iff after.ascending).mpr ⟨member, called⟩
  refine ⟨v, entry, called, after.fresh v member, ?_⟩
  rw [← meaning_of_find? found, meaning_learn sound lowered']

/-- A tree that is read is kept at once. -/
theorem modify_learn (sound : table.Sound)
    (lowered : ∀ name ∈ log.used, lower name = name) {index : Nat} {v : Variable}
    (entry : (table.learn log).entries[index]? = some v) :
    (⟨(table.learn log).entries.modify index Variable.keepTree⟩ : VariableTable) =
      table.learn (log.noteRead v.name) := by
  obtain ⟨before, known⟩ := find?_learn sound lowered
  obtain ⟨after, known'⟩ := @find?_learn _ sound (log.noteRead v.name) lowered
  refine (before.modify index Variable.name_keepTree
    fun _ => Variable.fresh_keepTree).ascending.ext after.ascending fun other => ?_
  rw [find?_modify before.ascending entry Variable.name_keepTree, known']
  by_cases here : other = v.name
  · have found := (find?_eq_some_iff before.ascending).mpr
      ⟨List.mem_of_getElem? entry, here.symm⟩
    have read : other ∈ (log.noteRead v.name).read := by
      rw [here]
      exact List.mem_cons_self
    rw [known] at found
    simp only at found
    simp only [if_pos here, if_pos read]
    -- the tree may have been kept before
    split at found
    · obtain ⟨w, declared, rfl⟩ := Option.map_eq_some_iff.mp found
      rw [Variable.keepTree_keepTree]
      exact (congrArg (Option.map Variable.keepTree) declared).symm
    · exact (congrArg (Option.map Variable.keepTree) found).symm
  · rw [if_neg here, known]
    have same : other ∈ (log.noteRead v.name).read ↔ other ∈ log.read := by
      rw [Log.noteRead, List.mem_cons, or_iff_right here]
    simp only [same]
    rfl

end VariableTable

/-! ## Beside a log -/

namespace Translator

/-- How a translation in one pass stands beside a log, while the sub-formulas
of a path are being translated: its table has learned what came up so far, and
its latest marks are those of the path and of the blocks. -/
structure Follows (scope : Scope) (path : List String) (log : Log)
    (t : Translator) : Prop where
  table : t.table = scope.table.learn log
  slots : ∀ name, t.slots.lookup name =
    if path.contains name then some .inProgress
    else (log.slots.lookup name).map .resolved
  blocks : t.blocks = log.blocks
  used : t.used = log.used
  tame : log.Tame scope path

section

variable {scope : Scope} {path : List String} {log : Log} {t : Translator}
  {name : String}

theorem Follows.start (scope : Scope) :
    Follows scope [] {} { table := scope.table } :=
  ⟨rfl, fun _ => rfl, rfl, rfl, .start scope⟩

theorem Follows.declare (follows : t.Follows scope path log)
    (sound : scope.table.Sound) (folded : lower name = name) :
    (t.declare name).Follows scope path (log.use name) where
  table := by
    rw [Translator.declare, follows.table]
    exact VariableTable.findOrInsert_learn sound follows.tame.lowered folded
  slots := follows.slots
  blocks := follows.blocks
  used := congrArg (Names.insert name) follows.used
  tame := follows.tame.use folded

/-- The tree of a used name is opened. -/
theorem Follows.keepAt (follows : t.Follows scope path log)
    (sound : scope.table.Sound) {index : Nat} {v : Variable}
    (entry : t.table.entries[index]? = some v) (called : v.name = name)
    (used : name ∈ log.used) (readable : scope.Readable name) :
    ((t.mark name).keepAt index).Follows scope (name :: path)
      (log.noteRead name) where
  table := by
    have learned := VariableTable.modify_learn sound follows.tame.lowered
      (follows.table ▸ entry)
    rw [called, ← follows.table] at learned
    exact learned
  slots other := by
    rw [Translator.keepAt, mark, List.lookup_cons, List.contains_cons]
    by_cases here : other = name
    · simp only [here, beq_self_eq_true, Bool.true_or, if_true]
    · have apart : (other == name) = false := beq_false_of_ne here
      rw [apart, Bool.false_or]
      exact follows.slots other
  blocks := follows.blocks
  used := follows.used
  tame := follows.tame.opened used readable

/-- The tree of a name that was off the path is left with its block. -/
theorem Follows.complete (follows : t.Follows scope (name :: path) log)
    (outside : ¬ path.contains name = true) (slot : UInt8)
    (block : List Instruction) :
    (t.complete name slot block).Follows scope path
      (log.complete name slot block) where
  table := follows.table
  slots other := by
    rw [Translator.complete, Log.complete, List.lookup_cons, List.lookup_cons]
    by_cases here : other = name
    · subst here
      simp only [beq_self_eq_true, outside, Bool.false_eq_true, if_false,
        Option.map_some]
    · have apart : (other == name) = false := beq_false_of_ne here
      have known := follows.slots other
      rw [List.contains_cons, apart, Bool.false_or] at known
      simp only [apart]
      exact known
  blocks := congrArg (· ++ [block]) follows.blocks
  used := follows.used
  tame :=
    have ⟨used, readable⟩ := follows.tame.read name List.mem_cons_self
    follows.tame.closed.complete used readable slot block

end

/-! ## Step by step -/

variable {α β : Type} {scope : Scope} {path : List String} {log : Log}
  {t : Translator}

/-- A step does what its counterpart does from a log, and stands beside the
log that this one leaves; after a failure only the table counts. -/
def Traces (scope : Scope) (path : List String) (log : Log) (t : Translator)
    (y : Step α) (x : Emit α) : Prop :=
  ∃ after, y.run.run t = some ((x.run log).1, after) ∧
    match x.run log with
    | (.ok _, log') => after.Follows scope path log'
    | (.error _, log') => after.table = scope.table.learn log'

theorem traces_pure (follows : t.Follows scope path log) (a : α) :
    Traces scope path log t (pure a) (pure a) := ⟨t, rfl, follows⟩

theorem traces_lift (follows : t.Follows scope path log)
    (x : Except CompileError α) :
    Traces scope path log t (liftM x) (liftM x) := by
  cases x with
  | error failure => exact ⟨t, rfl, follows.table⟩
  | ok a => exact ⟨t, rfl, follows⟩

theorem traces_throw (table : t.table = scope.table.learn log)
    (failure : CompileError) :
    Traces scope path log t (throw failure : Step α) (throw failure) :=
  ⟨t, rfl, table⟩

/-- Both go on as other steps do from elsewhere. -/
theorem Traces.of_run {t' : Translator} {log' : Log} {y y' : Step α}
    {x x' : Emit α} (first : y.run.run t = y'.run.run t')
    (second : x.run log = x'.run log')
    (traces : Traces scope path log' t' y' x') : Traces scope path log t y x := by
  unfold Traces
  rw [first, second]
  exact traces

theorem traces_bind {inner : List String} {y : Step β} {x : Emit β}
    {g : β → Step α} {f : β → Emit α} (first : Traces scope inner log t y x)
    (rest : ∀ b mid t', t'.Follows scope inner mid →
      Traces scope path mid t' (g b) (f b)) :
    Traces scope path log t (y >>= g) (x >>= f) := by
  obtain ⟨after, ran, follows⟩ := first
  unfold Traces
  rw [run_bind, ran, Emit.run_bind]
  rcases ran' : x.run log with ⟨failure | b, mid⟩
  · rw [ran'] at follows
    exact ⟨after, rfl, follows⟩
  · rw [ran'] at follows
    exact rest b mid after follows

/-- What is put out for a name, if its tree is put out alike. -/
theorem traces_reference (sound : scope.table.Sound) {name : String}
    (free : scope.Free name) (folded : lower name = name)
    (follows : t.Follows scope path log)
    {block : Expr → Step (List Instruction)}
    (nested : ¬ path.contains name = true → ∀ tree,
      parse (scope.table.meaning name).text = .ok (some tree) →
      ∀ log' t', t'.Follows scope (name :: path) log' →
        Traces scope (name :: path) log' t' (block tree)
          (Formula.emit scope (name :: path) tree)) :
    Traces scope path log t (emit block scope.parameters (.reference name))
      (Formula.emit scope path (.reference name)) := by
  have declared := follows.declare sound folded
  obtain ⟨v, entry, called, fresh, stands⟩ :=
    VariableTable.entry_learn sound follows.tame.lowered folded
  rw [← declared.table, ← follows.table] at entry
  have tree := Variable.tree_eq_declaration fresh
  rw [called] at tree
  -- both have noted the name, and are about to look at what it stands for
  have run := run_emit_reference sound free folded follows.tame
  rw [← stands, refer, ← tree] at run
  rw [emit, free]
  refine .of_run (run_bind_of_ok (x := get) rfl) run ?_
  refine .of_run (run_bind_of_ok (x := modify (·.declare name)) rfl) rfl ?_
  refine .of_run (run_bind_of_ok (x := get) rfl) rfl ?_
  simp only [entry]
  have kind : v.declaration.kind = v.kind := rfl
  rw [kind]
  split
  · exact traces_pure declared _
  refine .of_run (run_bind_of_ok (x := get) rfl) rfl ?_
  -- its latest mark is that it is on the path, or its block, if it has one
  rw [declared.slots name]
  by_cases outside : path.contains name = true
  · rw [if_pos outside, if_pos outside]
    exact traces_throw declared.table _
  rw [if_neg outside, if_neg outside]
  refine .of_run rfl (Emit.run_bind_of_ok (x := get) rfl) ?_
  rcases (log.use name).slots.lookup name with _ | slot
  · refine .of_run (run_bind_of_ok (x := modify (·.mark name)) rfl) rfl ?_
    cases read : v.tree with
    | error failure => exact ⟨_, rfl, declared.table⟩
    | ok opened =>
      have text : parse (scope.table.meaning name).text = .ok (some opened) := by
        rw [← stands]
        exact Declaration.tree_eq_ok_iff.mp (tree.symm.trans read)
      have inner := declared.keepAt sound entry called
        (Log.mem_use.mpr (.inl rfl)) ⟨opened, text⟩
      refine .of_run (run_bind_of_ok (x := liftM (Except.ok opened)) rfl)
        (Emit.run_bind_of_ok (x := liftM (Except.ok opened)) rfl) ?_
      refine .of_run (run_bind_of_ok
        (x := modify (·.keepAt (t.table.findOrInsert name).1)) rfl)
        (Emit.run_bind_of_ok (x := modify (·.noteRead name)) rfl) ?_
      -- the name is on the path until its block is complete
      refine traces_bind (nested outside opened text _ _ inner)
        fun block mid after follows => ?_
      refine .of_run (run_bind_of_ok (x := get) rfl)
        (Emit.run_bind_of_ok (x := get) rfl) ?_
      rw [follows.blocks]
      split
      · exact ⟨after, rfl, follows.table⟩
      · refine .of_run (run_bind_of_ok (x := modify
            (·.complete name (UInt8.ofNat (mid.blocks.length + 1)) block)) rfl)
          (Emit.run_bind_of_ok (x := modify
            (·.complete name (UInt8.ofNat (mid.blocks.length + 1)) block)) rfl) ?_
        exact traces_pure (follows.complete outside _ block) _
  · exact traces_pure declared _

/-- **One pass.** Expressions are put out alike, with the table changing on the
way or afterwards. It is enough if as many trees may be open in each other as
there are names that are not being translated. -/
theorem traces_emit (scope : Scope) (sound : scope.table.Sound) :
    (∀ path e, Lowered e.preorder → ∀ depth, scope.unopened path ≤ depth →
      ∀ log t, t.Follows scope path log →
      Traces scope path log t
        (emit (blockWithin scope.parameters depth) scope.parameters e)
        (Formula.emit scope path e)) ∧
    (∀ path es, Lowered (Expr.preorderAll es) → ∀ depth,
      scope.unopened path ≤ depth → ∀ log t, t.Follows scope path log →
      Traces scope path log t
        (emitAll (blockWithin scope.parameters depth) scope.parameters es)
        (Formula.emitAll scope path es)) := by
  apply Formula.emit.mutual_induct scope
  case case1 =>
    intro path value lowered depth enough log t follows
    rw [emit, Formula.emit]
    exact traces_pure follows _
  case case2 =>
    intro path name index found lowered depth enough log t follows
    rw [emit, Formula.emit, found]
    exact traces_pure follows _
  case case3 =>
    intro path name free nested lowered depth enough log t follows
    refine traces_reference sound free (lowered name (List.mem_singleton.mpr rfl))
      follows fun outside tree read => ?_
    cases found : scope.table.find? name with
    | none => exact absurd ⟨tree, read⟩ (scope.not_readable found)
    | some v =>
      -- one name less is left for the tree
      have fewer := Scope.unopened_lt found outside
      obtain ⟨less, rfl⟩ : ∃ less, depth = less + 1 := ⟨depth - 1, by omega⟩
      exact nested v found outside tree (lowered_of_parse read) less (by omega)
  case case4 =>
    intro path op operand ih lowered depth enough log t follows
    have inner := lowered.mono (List.subset_cons_self _ _)
    rw [emit, Formula.emit]
    refine traces_bind (ih inner depth enough log t follows)
      fun code mid after follows => ?_
    cases op <;> exact traces_pure follows _
  case case5 =>
    intro path op left right ihRight ihLeft lowered depth enough log t follows
    have operands := lowered.mono (List.subset_cons_self _ _)
    have first := operands.mono (List.subset_append_left _ _)
    have second := operands.mono (List.subset_append_right _ _)
    rw [emit, Formula.emit]
    refine traces_bind (ihRight second depth enough log t follows)
      fun _ mid t follows => ?_
    refine traces_bind (ihLeft first depth enough mid t follows)
      fun _ after t follows => ?_
    exact traces_pure follows _
  case case6 =>
    intro path function arguments ih lowered depth enough log t follows
    have inner := lowered.mono (List.subset_cons_self _ _)
    rw [emit, Formula.emit]
    refine traces_bind (traces_lift follows _) fun op mid t follows => ?_
    refine traces_bind (ih inner depth enough mid t follows)
      fun _ after t follows => ?_
    exact traces_pure follows _
  case case7 =>
    intro path lowered depth enough log t follows
    rw [emitAll, Formula.emitAll]
    exact traces_pure follows _
  case case8 =>
    intro path e rest ihRest ih lowered depth enough log t follows
    have first := lowered.mono (List.subset_append_left _ _)
    have others := lowered.mono (List.subset_append_right _ _)
    rw [emitAll, Formula.emitAll]
    refine traces_bind (ihRest others depth enough log t follows)
      fun _ mid t follows => ?_
    refine traces_bind (ih first depth enough mid t follows)
      fun _ after t follows => ?_
    exact traces_pure follows _

/-! ## Whole expressions -/

/-- Translates an expression whose parameters have the given names, in one
pass. There cannot be more trees open in each other than variables to begin
with. -/
def translate (table : VariableTable) (parameters : List String) (e : Expr) :
    Option (Except CompileError Translation × VariableTable) :=
  if 256 < parameters.length then
    some (.error (.tooManyParameters parameters.length), table)
  else
    let parameters := parameters.map lower
    let pass := emit (blockWithin parameters table.size) parameters e
    (pass.run.run { table }).map fun (result, t) =>
      (result.map fun main =>
        { instructions := t.blocks.flatten ++ main
          slotCount := t.blocks.length
          used := t.used }, t.table)

/-- **One pass over one table.** The pass ends, with the same translation or
failure and the same table as when names are declared and trees are kept
afterwards. -/
theorem translate_eq {table : VariableTable} (sound : table.Sound)
    (parameters : List String) {e : Expr} (lowered : Lowered e.preorder) :
    translate table parameters e = some (Formula.translate table parameters e) := by
  unfold translate Formula.translate
  split
  · rfl
  obtain ⟨after, ran, follows⟩ := (traces_emit ⟨parameters.map lower, table⟩
    sound).1 [] e lowered table.size (List.countP_le_length) {} { table }
    (.start _)
  simp only
  rw [ran, Option.map_some]
  rcases ran' : (Formula.emit ⟨parameters.map lower, table⟩ [] e).run {} with
    ⟨failure | main, log⟩
  · rw [ran'] at follows
    rw [follows]
    rfl
  · rw [ran'] at follows
    rw [follows.table, follows.blocks, follows.used]

end Translator

end FieldMesh.Formula
