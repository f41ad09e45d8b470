import FieldMesh.Proofs.Formula.Declarations
import FieldMesh.Proofs.Formula.Spelling
import FieldMesh.Proofs.Formula.Translatability

/-!
# Translating with another table

Translation asks a table what names stand for, and notes each name before it
asks. So a table that says the same of the noted names leads through the same
steps, to the same result and the same log, also if translation fails.

* `refer`: what is put out for a name, by what the name stands for alone;
  `run_emit_reference` says that this is all that counts;
* `Log.Tame`: what holds of every log on the way;
* `Emit.Retraces`: a step and its counterpart with another table;
* `Scope.Lasting`: what is kept while a name is looked into, and by
  `retraces_refer` for the whole of what is put out for it;
* **main result**: `retraces_emit`.
-/

namespace FieldMesh.Formula

open FieldMesh.Program (Instruction)
open FieldMesh.Text

/-! ## Names by what they stand for -/

/-- The tree of what is declared as a sub-formula. -/
def Declaration.tree (d : Declaration) (name : String) : Except CompileError Expr :=
  match parse d.text with
  | .error reason => .error (.invalidSubFormula name reason)
  | .ok none => .error (.emptySubFormula name)
  | .ok (some tree) => .ok tree

/-- The vector of what is declared as a value. -/
def Declaration.constant (d : Declaration) : Vec3 :=
  match d.kind with
  | .float => Vec3.splat d.value.x
  | .vector | .subFormula => d.value

/-- What is put out for a name that stands for `d`; `block` puts out the tree
of a sub-formula. -/
def refer (d : Declaration) (path : List String) (name : String)
    (block : Expr → Emit (List Instruction)) : Emit (List Instruction) := do
  if d.kind ≠ .subFormula then return [.const d.constant]
  if path.contains name then throw (.recursiveDefinition name)
  else match (← get).slots.lookup name with
    | some slot => return [.load slot]
    | none =>
      let tree ← d.tree name
      modify (·.noteRead name)
      let block ← block tree
      let position := (← get).blocks.length + 1
      if 255 < position then throw .tooManySubFormulas
      let slot := UInt8.ofNat position
      modify (·.complete name slot block)
      return [.load slot]

/-- The name stands for something with a tree. -/
def Scope.Readable (scope : Scope) (name : String) : Prop :=
  ∃ tree, parse (scope.table.meaning name).text = .ok (some tree)

/-- What holds of every log while the sub-formulas of a path are being
translated: the used names are in lower case, and those on the path and those
with a block are among them and have trees. -/
structure Log.Tame (scope : Scope) (path : List String) (log : Log) : Prop where
  lowered : ∀ name ∈ log.used, lower name = name
  read : ∀ name ∈ path ++ log.names, name ∈ log.used ∧ scope.Readable name

section

variable {scope : Scope} {path : List String} {name : String} {log : Log}

theorem Log.Tame.start (scope : Scope) : ({} : Log).Tame scope [] :=
  ⟨fun _ member => absurd member List.not_mem_nil,
    fun _ member => absurd member List.not_mem_nil⟩

theorem VariableTable.meaning_of_find? {table : VariableTable} {v : Variable}
    (found : table.find? name = some v) : table.meaning name = v.declaration := by
  rw [meaning, declaration?, found]
  rfl

theorem VariableTable.meaning_of_not_find? {table : VariableTable}
    (absent : table.find? name = none) : table.meaning name = .implied name := by
  rw [meaning, declaration?, absent]
  rfl

theorem Variable.tree_eq_declaration {v : Variable} (fresh : v.Fresh) :
    v.tree = v.declaration.tree v.name := by
  rw [tree_of_fresh fresh]
  rfl

/-- A name that no table declares has no tree. -/
theorem Scope.not_readable (absent : scope.table.find? name = none) :
    ¬ scope.Readable name := by
  rintro ⟨tree, read⟩
  rw [VariableTable.meaning_of_not_find? absent] at read
  exact parse_empty_ne tree read

/-- What is put out for a declared name depends on its declaration. -/
theorem run_emit_declared (sound : scope.table.Sound) (free : scope.Free name)
    {v : Variable} (found : scope.table.find? name = some v) (log : Log) :
    (emit scope path (.reference name)).run log =
      (refer v.declaration path name (emit scope (name :: path))).run
        (log.use name) := by
  have called := (VariableTable.find?_some found).2
  have fresh := sound.fresh v (VariableTable.find?_some found).1
  have tree := Variable.tree_eq_declaration fresh
  rw [called] at tree
  rw [emit, free, refer, ← tree]
  show (_ : Emit (List Instruction)).run (log.use name) = _
  split
  · next absent => cases found.symm.trans absent
  next w found' =>
  cases found.symm.trans found'
  by_cases constant : v.kind = .subFormula
  · have constant' : v.declaration.kind = .subFormula := constant
    simp only [constant, constant', ne_eq, not_true_eq_false, if_false]
    rfl
  · have constant' : ¬ v.declaration.kind = .subFormula := constant
    simp only [constant, constant', ne_eq, not_false_eq_true, if_true]
    rfl

/-- What is put out for a name depends on what it stands for. -/
theorem run_emit_reference (sound : scope.table.Sound) (free : scope.Free name)
    (lowered : lower name = name) (tame : log.Tame scope path) :
    (emit scope path (.reference name)).run log =
      (refer (scope.table.meaning name) path name
        (emit scope (name :: path))).run (log.use name) := by
  cases found : scope.table.find? name with
  | some v =>
    rw [VariableTable.meaning_of_find? found]
    exact run_emit_declared sound free found log
  | none =>
    -- names on the path or with a block have been read; this one cannot be
    have unread := scope.not_readable found
    have outside : path.contains name = false := by
      rw [Bool.eq_false_iff]
      intro inside
      exact unread (tame.read name (List.mem_append_left _
        (List.contains_iff_mem.mp inside))).2
    have lacks : (log.use name).slots.lookup name = none :=
      Log.lookup_eq_none.mpr fun member =>
        unread (tame.read name (List.mem_append_right _ member)).2
    have tree : (Declaration.implied name).tree name =
        .error (.emptySubFormula (lower name)) := by
      have empty : parse "" = .ok none := by with_unfolding_all rfl
      rw [lowered, Declaration.tree]
      simp only [Declaration.implied, empty]
    have kind : (Variable.implied name).kind = (Declaration.implied name).kind := rfl
    rw [run_emit_undeclared free found, VariableTable.meaning_of_not_find? found,
      refer, tree]
    simp only [outside, lowered, kind, Bool.false_eq_true, if_false]
    by_cases constant : (Declaration.implied name).kind = .subFormula
    · simp only [constant, ne_eq, not_true_eq_false, if_true, if_false]
      refine Eq.symm ((Emit.run_bind_of_ok (x := get) rfl).trans ?_)
      simp only [lacks]
      rfl
    · have same : (Variable.implied name).constant =
          (Declaration.implied name).constant := rfl
      simp only [constant, ne_eq, not_false_eq_true, if_true, if_false, same]
      rfl

end

/-! ## Steps and their counterparts -/

/-- From a log, a step keeps what holds of logs and forgets no used name; and
if `agreed` holds of all that are used in the end, its counterpart does the
same. -/
structure Emit.Retraces {α : Type} (kept : Log → Prop) (agreed : String → Prop)
    (log : Log) (x y : Emit α) : Prop where
  kept : kept (x.run log).2
  grows : log.used ⊆ (x.run log).2.used
  same : (∀ name ∈ (x.run log).2.used, agreed name) → y.run log = x.run log

namespace Emit

variable {α β : Type} {kept : Log → Prop} {agreed : String → Prop} {log : Log}

/-- What ends a step without another name. -/
theorem Retraces.still {x : Emit α} (holds : kept log)
    (unmoved : (x.run log).2 = log) : Retraces kept agreed log x x where
  kept := by rwa [unmoved]
  grows := by rw [unmoved]; exact fun _ => id
  same _ := rfl

theorem retraces_pure {a : α} (holds : kept log) :
    Retraces kept agreed log (pure a) (pure a) := .still holds rfl

theorem retraces_throw {failure : CompileError} (holds : kept log) :
    Retraces kept agreed log (throw failure : Emit α) (throw failure) :=
  .still holds rfl

theorem retraces_get (holds : kept log) :
    Retraces kept agreed log (get : Emit Log) get := .still holds rfl

theorem retraces_lift {x : Except CompileError α} (holds : kept log) :
    Retraces kept agreed log (liftM x : Emit α) (liftM x) := by
  cases x <;> exact .still holds rfl

theorem retraces_modify {change : Log → Log} (holds : kept (change log))
    (grows : log.used ⊆ (change log).used) :
    Retraces kept agreed log (modify change : Emit Unit) (modify change) :=
  ⟨holds, grows, fun _ => rfl⟩

theorem retraces_bind {x y : Emit β} {f g : β → Emit α}
    (first : Retraces kept agreed log x y)
    (rest : ∀ b mid, x.run log = (.ok b, mid) → kept mid → log.used ⊆ mid.used →
      Retraces kept agreed mid (f b) (g b)) :
    Retraces kept agreed log (x >>= f) (y >>= g) := by
  obtain ⟨holds, grows, same⟩ := first
  rcases ran : x.run log with ⟨failure | b, mid⟩
  · -- after a failure there is no second step
    have both : (x >>= f).run log = (.error failure, mid) := by
      rw [run_bind, ran]
    rw [ran] at holds grows same
    refine ⟨by rwa [both], by rwa [both], fun agree => ?_⟩
    rw [both] at agree ⊢
    rw [run_bind, same agree]
  · have both : (x >>= f).run log = (f b).run mid := by rw [run_bind, ran]
    rw [ran] at holds grows same
    obtain ⟨holds', grows', same'⟩ := rest b mid ran holds grows
    refine ⟨by rwa [both], fun _ member => ?_, fun agree => ?_⟩
    · rw [both]
      exact grows' (grows member)
    · rw [both] at agree ⊢
      rw [run_bind, same fun name member => agree name (grows' member)]
      exact same' agree

theorem Retraces.mono {x y : Emit α} (retraces : Retraces kept agreed log x y)
    {kept' : Log → Prop} (weaker : ∀ log, kept log → kept' log) :
    Retraces kept' agreed log x y :=
  { retraces with kept := weaker _ retraces.kept }

/-- A step that notes a name and goes on as another one retraces itself. -/
theorem Retraces.of_use {name : String} {x y : Emit α}
    (run : x.run log = y.run (log.use name))
    (rest : Retraces kept agreed (log.use name) y y) :
    Retraces kept agreed log x x where
  kept := by rw [run]; exact rest.kept
  grows := by
    rw [run]
    exact fun _ member => rest.grows (Names.mem_insert.mpr (.inr member))
  same _ := rfl

end Emit

/-! ## Names -/

section

variable {scope : Scope} {path : List String} {name : String} {log : Log}

theorem Log.mem_use {other : String} :
    other ∈ (log.use name).used ↔ other = name ∨ other ∈ log.used :=
  Names.mem_insert

/-- A name in lower case is noted. -/
theorem Log.Tame.use (tame : log.Tame scope path) (lowered : lower name = name) :
    (log.use name).Tame scope path where
  lowered other member := by
    rcases Log.mem_use.mp member with rfl | old
    · exact lowered
    · exact tame.lowered other old
  read other member :=
    ⟨Log.mem_use.mpr (.inr (tame.read other member).1),
      (tame.read other member).2⟩

/-- The tree of a used name is opened. -/
theorem Log.Tame.opened (tame : log.Tame scope path) (used : name ∈ log.used)
    (readable : scope.Readable name) :
    (log.noteRead name).Tame scope (name :: path) where
  lowered := tame.lowered
  read other member := by
    rcases List.mem_cons.mp member with rfl | member
    · exact ⟨used, readable⟩
    · exact tame.read other member

/-- The tree on top of the path is left again, with or without a block. -/
theorem Log.Tame.closed (tame : log.Tame scope (name :: path)) :
    log.Tame scope path where
  lowered := tame.lowered
  read other member := tame.read other (List.mem_cons_of_mem _ member)

theorem Log.Tame.complete (tame : log.Tame scope path) (used : name ∈ log.used)
    (readable : scope.Readable name) (slot : UInt8) (block : List Instruction) :
    (log.complete name slot block).Tame scope path where
  lowered := tame.lowered
  read other member := by
    rcases List.mem_append.mp member with above | member
    · exact tame.read other (List.mem_append_left _ above)
    · rcases List.mem_cons.mp member with rfl | member
      · exact ⟨used, readable⟩
      · exact tame.read other (List.mem_append_right _ member)

/-- What holds of logs while the sub-formulas of a path are being translated,
and lasts when the tree of a used name is opened, left, and given its block. -/
structure Scope.Lasting (scope : Scope) (kept : List String → Log → Prop) :
    Prop where
  opened : ∀ {path name log}, kept path log → name ∈ log.used →
    scope.Readable name → kept (name :: path) (log.noteRead name)
  closed : ∀ {path name log}, kept (name :: path) log → kept path log
  complete : ∀ {path name log}, kept path log → name ∈ log.used →
    scope.Readable name → ∀ slot block, kept path (log.complete name slot block)

theorem Log.lasting_tame (scope : Scope) :
    scope.Lasting fun path log => log.Tame scope path :=
  ⟨Log.Tame.opened, Log.Tame.closed, Log.Tame.complete⟩

theorem Declaration.tree_eq_ok_iff {d : Declaration} {tree : Expr} :
    d.tree name = .ok tree ↔ parse d.text = .ok (some tree) := by
  unfold Declaration.tree
  constructor
  · intro read
    split at read
    · cases read
    · cases read
    · next found =>
      cases read
      exact found
  · intro said
    rw [said]

/-- What is put out for a name, if its tree is put out alike. -/
theorem retraces_refer {kept : List String → Log → Prop}
    {agreed : String → Prop} (lasting : scope.Lasting kept)
    (holds : kept path log) (used : name ∈ log.used)
    {block block' : Expr → Emit (List Instruction)}
    (blocks : ¬ path.contains name = true →
      (scope.table.meaning name).kind = .subFormula →
      ∀ tree, parse (scope.table.meaning name).text = .ok (some tree) →
      ∀ log : Log, kept (name :: path) log →
        Emit.Retraces (kept (name :: path)) agreed log (block tree)
          (block' tree)) :
    Emit.Retraces (kept path) agreed log
      (refer (scope.table.meaning name) path name block)
      (refer (scope.table.meaning name) path name block') := by
  unfold refer
  split
  · exact Emit.retraces_pure holds
  next subFormula =>
  split
  · exact Emit.retraces_throw holds
  next outside =>
  refine Emit.retraces_bind (Emit.retraces_get holds) fun seen mid ran _ _ => ?_
  cases ran
  split
  · exact Emit.retraces_pure holds
  refine Emit.retraces_bind (Emit.retraces_lift holds) fun tree mid ran _ _ => ?_
  obtain ⟨read, rfl⟩ := Emit.lift_ok.mp ran
  have read := Declaration.tree_eq_ok_iff.mp read
  have readable : scope.Readable name := ⟨tree, read⟩
  have opened := lasting.opened holds used readable
  refine Emit.retraces_bind (Emit.retraces_modify (lasting.closed opened)
    fun _ => id) fun _ mid ran _ _ => ?_
  cases ran
  -- inside, the name is on the path; behind the block it is off it again
  have inner := (blocks outside (Classical.not_not.mp subFormula) tree read _
    opened).mono fun _ => lasting.closed
  refine Emit.retraces_bind inner fun block mid _ holds grows => ?_
  refine Emit.retraces_bind (Emit.retraces_get holds) fun seen mid' ran _ _ => ?_
  cases ran
  simp only
  split
  · exact Emit.retraces_bind (Emit.retraces_throw holds) fun _ _ ran => by cases ran
  · have done := lasting.complete holds (grows used) readable
      (UInt8.ofNat (mid.blocks.length + 1)) block
    refine Emit.retraces_bind (Emit.retraces_modify done fun _ => id)
      fun _ mid' ran holds _ => ?_
    exact Emit.retraces_pure holds

end

/-! ## Expressions -/

/-- **Another table.** Expressions are put out alike under tables that agree on
all names that are used in the end. -/
theorem retraces_emit (scope scope' : Scope) (sound : scope.table.Sound)
    (sound' : scope'.table.Sound) (same : scope'.parameters = scope.parameters) :
    (∀ path e, Lowered e.preorder → ∀ log : Log, log.Tame scope path →
      Emit.Retraces (Log.Tame scope path)
        (fun name => scope'.table.meaning name = scope.table.meaning name) log
        (emit scope path e) (emit scope' path e)) ∧
    (∀ path es, Lowered (Expr.preorderAll es) → ∀ log : Log,
      log.Tame scope path →
      Emit.Retraces (Log.Tame scope path)
        (fun name => scope'.table.meaning name = scope.table.meaning name) log
        (emitAll scope path es) (emitAll scope' path es)) := by
  apply emit.mutual_induct scope
  case case1 =>
    intro path value lowered log tame
    rw [emit, emit]
    exact Emit.retraces_pure tame
  case case2 =>
    intro path name index found lowered log tame
    rw [emit, emit, same, found]
    exact Emit.retraces_pure tame
  case case3 =>
    intro path name free nested lowered log tame
    have folded := lowered name (List.mem_singleton.mpr rfl)
    have used : name ∈ (log.use name).used := Log.mem_use.mpr (.inl rfl)
    have run := run_emit_reference sound free folded tame
    have retraces : Emit.Retraces (Log.Tame scope path)
        (fun name => scope'.table.meaning name = scope.table.meaning name)
        (log.use name)
        (refer (scope.table.meaning name) path name (emit scope (name :: path)))
        (refer (scope.table.meaning name) path name
          (emit scope' (name :: path))) :=
      retraces_refer (Log.lasting_tame scope) (tame.use folded) used
          fun outside _ tree read log tame => by
        cases found : scope.table.find? name with
        | none => exact absurd ⟨tree, read⟩ (scope.not_readable found)
        | some v =>
          exact nested v found outside tree (lowered_of_parse read) log tame
    obtain ⟨kept, grows, alike⟩ := retraces
    refine ⟨by rwa [run], fun other member => ?_, fun agree => ?_⟩
    · rw [run]
      exact grows (Log.mem_use.mpr (.inr member))
    · rw [run] at agree ⊢
      -- the other table says the same of the names that are known by now
      have known {other : String} (member : other ∈ (log.use name).used) :=
        agree other (grows member)
      have free' : scope'.Free name := by rwa [Scope.Free, same]
      have tame' : log.Tame scope' path := by
        refine ⟨tame.lowered, fun other member => ?_⟩
        obtain ⟨there, readable⟩ := tame.read other member
        refine ⟨there, ?_⟩
        rwa [Scope.Readable, known (Log.mem_use.mpr (.inr there))]
      rw [run_emit_reference sound' free' folded tame', known used]
      exact alike agree
  case case4 =>
    intro path op operand ih lowered log tame
    have inner := lowered.mono (List.subset_cons_self _ _)
    rw [emit, emit]
    refine Emit.retraces_bind (ih inner log tame) fun code mid _ tame _ => ?_
    cases op <;> exact Emit.retraces_pure tame
  case case5 =>
    intro path op left right ihRight ihLeft lowered log tame
    have operands := lowered.mono (List.subset_cons_self _ _)
    have first := operands.mono (List.subset_append_left _ _)
    have second := operands.mono (List.subset_append_right _ _)
    rw [emit, emit]
    refine Emit.retraces_bind (ihRight second log tame) fun _ mid _ tame _ => ?_
    refine Emit.retraces_bind (ihLeft first mid tame) fun _ after _ tame _ => ?_
    exact Emit.retraces_pure tame
  case case6 =>
    intro path function arguments ih lowered log tame
    have inner := lowered.mono (List.subset_cons_self _ _)
    rw [emit, emit]
    refine Emit.retraces_bind (Emit.retraces_lift tame) fun op mid _ tame _ => ?_
    refine Emit.retraces_bind (ih inner mid tame) fun _ after _ tame _ => ?_
    exact Emit.retraces_pure tame
  case case7 =>
    intro path lowered log tame
    rw [emitAll, emitAll]
    exact Emit.retraces_pure tame
  case case8 =>
    intro path e rest ihRest ih lowered log tame
    have first := lowered.mono (List.subset_append_left _ _)
    have others := lowered.mono (List.subset_append_right _ _)
    rw [emitAll, emitAll]
    refine Emit.retraces_bind (ihRest others log tame) fun _ mid _ tame _ => ?_
    refine Emit.retraces_bind (ih first mid tame) fun _ after _ tame _ => ?_
    exact Emit.retraces_pure tame

/-! ## Whole expressions -/

/-- What comes up when an expression is translated, whether that succeeds or
not. -/
def translationLog (table : VariableTable) (parameters : List String) (e : Expr) :
    Log :=
  ((emit ⟨parameters.map lower, table⟩ [] e).run {}).2

/-- The names that come up are in lower case. -/
theorem lowered_used {table : VariableTable} (parameters : List String)
    (sound : table.Sound) {e : Expr} (lowered : Lowered e.preorder) :
    ∀ name ∈ (translationLog table parameters e).used, lower name = name :=
  have retraces := retraces_emit ⟨parameters.map lower, table⟩ _ sound sound rfl
  (retraces.1 [] e lowered {} (.start _)).kept.lowered

end FieldMesh.Formula
