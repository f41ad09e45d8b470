import FieldMesh.Proofs.Formula.Code
import FieldMesh.Proofs.Formula.Translatability
import FieldMesh.Proofs.Lists

/-!
# The layout of a translation

A translation is the code of the sub-formulas that the expression uses, each
once and in an order in which it only needs earlier ones, and then the code of
the expression.

* `Log.Laid`: the blocks in a log are the code of their sub-formulas, under
  every numbering that goes on from that of the log;
* `Emits.laid`: emission keeps this, and puts out code;
* `Scope.Ordered.earlier`: what a sub-formula needs has a lower number;
* **main result**: `translate_layout`.
-/

namespace FieldMesh.Formula

open FieldMesh.Program (Depths Instruction scan)
open FieldMesh.Program.Machine (perform)
open FieldMesh.Text

/-! ## Logs that grow -/

/-- The sub-formulas that have a block, in the order of the blocks. -/
def Log.order (log : Log) : List String := log.names.reverse

/-- A numbering in which the numbers of a log stand. -/
def Log.Numbers (log : Log) (number : String → UInt8) : Prop :=
  ∀ name slot, log.slots.lookup name = some slot → number name = slot

/-- Numbers that were given stand, and the sub-formulas of a path got none. -/
structure Log.Extends (path : List String) (log log' : Log) : Prop where
  kept : ∀ name slot, log.slots.lookup name = some slot →
    log'.slots.lookup name = some slot
  outside : ∀ name ∈ path, log'.slots.lookup name = log.slots.lookup name

/-- Blocks are numbered from one in their order, and each is the code of its
own sub-formula, whatever numbers others will get. -/
structure Log.Laid (scope : Scope) (log : Log) : Prop where
  count : log.blocks.length = log.order.length
  numbered : ∀ (k : Nat) name, log.order[k]? = some name →
    log.slots.lookup name = some (UInt8.ofNat (k + 1))
  blocks : ∀ number, log.Numbers number →
    List.Forall₂ (fun name block =>
      ∃ tree, scope.Reads name tree ∧ block = scope.code number tree)
      log.order log.blocks

section

variable {scope : Scope} {path : List String} {log log' log'' : Log}
  {name other : String} {slot : UInt8} {block : List Instruction}

theorem Log.Extends.refl (path : List String) (log : Log) :
    log.Extends path log :=
  ⟨fun _ _ => id, fun _ _ => rfl⟩

theorem Log.Extends.numbers (extend : log.Extends path log')
    {number : String → UInt8} (numbers : log'.Numbers number) :
    log.Numbers number :=
  fun name slot has => numbers name slot (extend.kept name slot has)

theorem Log.Extends.trans (first : log.Extends path log')
    (second : log'.Extends path log'') : log.Extends path log'' where
  kept name slot has := second.kept name slot (first.kept name slot has)
  outside name above := (second.outside name above).trans (first.outside name above)

theorem Log.Extends.of_cons (extend : log.Extends (name :: path) log') :
    log.Extends path log' where
  kept := extend.kept
  outside other above := extend.outside other (List.mem_cons_of_mem name above)

/-- What is noted of a name has nothing to do with numbers. -/
theorem Log.extends_use : log.Extends path (log.use name) :=
  ⟨fun _ _ => id, fun _ _ => rfl⟩

theorem Log.extends_noteRead : log.Extends path (log.noteRead name) :=
  ⟨fun _ _ => id, fun _ _ => rfl⟩

theorem Log.Laid.use (laid : log.Laid scope) : (log.use name).Laid scope :=
  ⟨laid.count, laid.numbered, laid.blocks⟩

theorem Log.Laid.noteRead (laid : log.Laid scope) :
    (log.noteRead name).Laid scope :=
  ⟨laid.count, laid.numbered, laid.blocks⟩

theorem Log.order_complete (log : Log) (name : String) (slot : UInt8)
    (block : List Instruction) :
    (log.complete name slot block).order = log.order ++ [name] := by
  simp [Log.order, Log.names, Log.complete]

theorem Log.lookup_complete_of_ne (apart : other ≠ name) :
    (log.complete name slot block).slots.lookup other =
      log.slots.lookup other := by
  have differ : (other == name) = false := beq_eq_false_iff_ne.mpr apart
  rw [Log.complete, List.lookup_cons, differ]

/-- A new block changes the numbers of no others. -/
theorem Log.extends_complete (lacks : log.slots.lookup name = none)
    (closed : name ∉ path) :
    log.Extends path (log.complete name slot block) where
  kept other slot' has := by
    rw [Log.lookup_complete_of_ne, has]
    rintro rfl
    rw [lacks] at has
    cases has
  outside other above :=
    Log.lookup_complete_of_ne fun same => closed (same ▸ above)

/-- The block that is completed next. -/
theorem Log.Laid.complete (laid : log.Laid scope)
    (lacks : log.slots.lookup name = none) {tree : Expr}
    (read : scope.Reads name tree)
    (code : ∀ number, log.Numbers number → block = scope.code number tree) :
    (log.complete name (UInt8.ofNat (log.blocks.length + 1)) block).Laid scope := by
  have extend : log.Extends []
      (log.complete name (UInt8.ofNat (log.blocks.length + 1)) block) :=
    Log.extends_complete lacks nofun
  refine ⟨?_, fun k other entry => ?_, fun number numbers => ?_⟩
  · rw [Log.order_complete, List.length_append, ← laid.count]
    exact List.length_append
  · rw [Log.order_complete] at entry
    rcases getElem?_concat_iff.mp entry with earlier | ⟨rfl, rfl⟩
    · exact extend.kept _ _ (laid.numbered k other earlier)
    · rw [Log.lookup_new, laid.count]
  · have numbers' : log.Numbers number := extend.numbers numbers
    rw [Log.order_complete]
    exact List.rel_append (laid.blocks number numbers')
      (.cons ⟨tree, read, code number numbers'⟩ .nil)

/-! ## Emission -/

/-- The name of a constant is put out as that constant. -/
theorem Scope.nameCode_constant {v : Variable} (free : scope.Free name)
    (found : (scope.table.find? name).getD (.implied (lower name)) = v)
    (constant : v.kind ≠ .subFormula) (number : String → UInt8) :
    scope.nameCode number name = .const v.constant := by
  rw [Scope.nameCode, free]
  simp only [found]
  exact if_neg constant

/-- The name of a sub-formula is put out as its number. -/
theorem Scope.nameCode_load {v : Variable} (free : scope.Free name)
    (found : scope.table.find? name = some v) (kind : v.kind = .subFormula)
    (number : String → UInt8) :
    scope.nameCode number name = .load (number name) := by
  rw [Scope.nameCode, free]
  simp only [found, Option.getD_some]
  exact if_pos kind

/-- **Emission.** What is put out is code, under every numbering that goes on
from the numbers at the end, and the log stays laid out. -/
theorem Emits.laid (sound : scope.table.Sound) {es : List Expr}
    {code : List Instruction} (emitted : Emits scope path log es code log')
    (laid : log.Laid scope) :
    log'.Laid scope ∧ log.Extends path log' ∧
      ∀ number, log'.Numbers number → code = scope.codeAll number es := by
  induction emitted with
  | nil => exact ⟨laid, .refl _ _, fun _ _ => by rw [Scope.codeAll]⟩
  | constant value _ ih =>
    obtain ⟨laid', extend, code⟩ := ih laid
    refine ⟨laid', extend, fun number numbers => ?_⟩
    rw [Scope.codeAll, Scope.code, ← code number numbers]
  | @parameter _ _ _ _ _ name index found _ ih =>
    obtain ⟨laid', extend, code⟩ := ih laid
    refine ⟨laid', extend, fun number numbers => ?_⟩
    rw [Scope.codeAll, Scope.code, ← code number numbers, Scope.nameCode, found]
  | undeclared free absent constant _ ih =>
    obtain ⟨laid', extend, code⟩ := ih laid
    refine ⟨laid'.use, extend.trans Log.extends_use, fun number numbers => ?_⟩
    rw [Scope.codeAll, Scope.code, ← code number numbers,
      Scope.nameCode_constant free (by rw [absent, Option.getD_none]) constant]
  | declared free found constant _ ih =>
    obtain ⟨laid', extend, code⟩ := ih laid
    refine ⟨laid'.use, extend.trans Log.extends_use, fun number numbers => ?_⟩
    rw [Scope.codeAll, Scope.code, ← code number numbers,
      Scope.nameCode_constant free (by rw [found, Option.getD_some]) constant]
  | shared free found kind _ has _ ih =>
    obtain ⟨laid', extend, code⟩ := ih laid
    refine ⟨laid'.use, extend.trans Log.extends_use, fun number numbers => ?_⟩
    rw [Scope.codeAll, Scope.code, ← code number numbers,
      Scope.nameCode_load free found kind, numbers _ _ has]
  | @block path log es code log' name v tree block log'' free found kind closed
      lacks read _ _ _ ih ihBlock =>
    obtain ⟨laid', extend, code⟩ := ih laid
    obtain ⟨laid'', extend', code'⟩ := ihBlock laid'.use.noteRead
    -- while its text was put out, the sub-formula got no number
    have lacks' : log''.slots.lookup name = none :=
      (extend'.outside name List.mem_cons_self).trans lacks
    have outside : name ∉ path := fun above => by
      rw [List.contains_iff_mem.mpr above] at closed
      cases closed
    have later : log'.Extends path
        (log''.complete name (UInt8.ofNat (log''.blocks.length + 1)) block) :=
      (Log.extends_use.trans Log.extends_noteRead).trans
        (extend'.of_cons.trans (Log.extends_complete lacks' outside))
    have fresh := sound.fresh v (VariableTable.find?_some found).1
    have declares : scope.Declares name v :=
      .declared (VariableTable.find?_some found).1 (VariableTable.find?_some found).2
    have reads : scope.Reads name tree :=
      ⟨v.text, ⟨v, declares, kind, rfl⟩, (Variable.tree_eq_ok_iff fresh).mp read⟩
    refine ⟨laid''.complete lacks' reads fun number numbers => ?_,
      extend.trans later, fun number numbers => ?_⟩
    · rw [code' number numbers]
      simp [Scope.codeAll]
    · rw [Scope.codeAll, Scope.code, ← code number (later.numbers numbers),
        Scope.nameCode_load free found kind, numbers _ _ Log.lookup_new]
  | plus _ ih =>
    obtain ⟨laid', extend, code⟩ := ih laid
    refine ⟨laid', extend, fun number numbers => ?_⟩
    rw [code number numbers, Scope.codeAll, Scope.codeAll, Scope.code]
  | minus _ ih =>
    obtain ⟨laid', extend, code⟩ := ih laid
    refine ⟨laid', extend, fun number numbers => ?_⟩
    rw [code number numbers, Scope.codeAll, Scope.codeAll, Scope.code,
      List.append_assoc]
  | binary op _ ih =>
    obtain ⟨laid', extend, code⟩ := ih laid
    refine ⟨laid', extend, fun number numbers => ?_⟩
    rw [code number numbers, Scope.codeAll, Scope.codeAll, Scope.codeAll, Scope.code]
    simp only [List.append_assoc]
  | call resolved _ ih =>
    obtain ⟨laid', extend, code⟩ := ih laid
    refine ⟨laid', extend, fun number numbers => ?_⟩
    rw [code number numbers, Scope.codeAll_append, Scope.codeAll, Scope.code,
      resolved]
    simp only [List.append_assoc]

end

/-! ## Order -/

/-- What the tree of a sub-formula mentions has an earlier place. -/
theorem Scope.Ordered.earlier {scope : Scope} {e : Expr} {names : List String}
    (order : scope.Ordered e names) (ascending : scope.table.Ascending) {k : Nat}
    {name inner : String} {tree : Expr} (entry : names.reverse[k]? = some name)
    (read : scope.Reads name tree) (mentions : scope.Mentions tree.preorder inner)
    (abbreviates : scope.Abbreviates inner) :
    ∃ j < k, names.reverse[j]? = some inner := by
  induction order with
  | nil => cases entry
  | @cons last tree' earlier _ _ _ read' _ below ih =>
    rw [List.reverse_cons] at entry ⊢
    rcases getElem?_concat_iff.mp entry with before | ⟨rfl, rfl⟩
    · obtain ⟨j, lower, there⟩ := ih before
      exact ⟨j, lower, getElem?_concat_iff.mpr (.inl there)⟩
    · cases read.unique ascending read'
      have member := List.mem_reverse.mpr (below inner mentions abbreviates)
      obtain ⟨j, there⟩ := List.mem_iff_getElem?.mp member
      have inside := (List.getElem?_eq_some_iff.mp there).1
      exact ⟨j, inside, getElem?_concat_iff.mpr (.inl there)⟩

/-- The number of a sub-formula in an order of them, from one on. -/
def numberIn (order : List String) (name : String) : UInt8 :=
  UInt8.ofNat (order.idxOf name + 1)

theorem numberIn_of_getElem? {order : List String} (distinct : order.Nodup)
    {k : Nat} {name : String} (entry : order[k]? = some name) :
    numberIn order name = UInt8.ofNat (k + 1) := by
  obtain ⟨inside, rfl⟩ := List.getElem?_eq_some_iff.mp entry
  rw [numberIn, distinct.idxOf_getElem]

/-- The places in the order of a log are the numbers in it. -/
theorem Log.Laid.numbers {scope : Scope} {log : Log} (laid : log.Laid scope)
    (distinct : log.order.Nodup) : log.Numbers (numberIn log.order) := by
  intro name slot has
  have member : name ∈ log.order := List.mem_reverse.mpr (Log.mem_of_lookup has)
  obtain ⟨k, entry⟩ := List.mem_iff_getElem?.mp member
  rw [numberIn_of_getElem? distinct entry]
  exact Option.some.inj ((laid.numbered k name entry).symm.trans has)

/-! ## Whole translations -/

/-- Code that stands on `height` results: it loads none but these, and it
leaves one more entry on a stack of that height, by the heights and when it
runs. -/
structure Scope.StandsOn (scope : Scope) (height : Nat)
    (code : List Instruction) : Prop where
  loads : ∀ i ∈ code, i.opcode = .load →
    0 < i.slot.toNat ∧ i.slot.toNat ≤ height
  heights : ∀ position (before : Depths), before.depth = height →
    ∃ after, scan position before code = .ok after ∧ after.depth = height + 1
  runs : ∀ arguments : List Vec3, scope.parameters.length ≤ arguments.length →
    ∀ stack : List Vec3, stack.length = height →
      perform arguments code stack = .error .noiseUndefined ∨
        ∃ v, perform arguments code stack = .ok (v :: stack)

theorem Scope.Pushing.standsOn {scope : Scope} {height : Nat}
    {code : List Instruction} (pushing : scope.Pushing height code 1) :
    scope.StandsOn height code where
  loads := pushing.loads
  heights position before same := by
    obtain ⟨after, followed, depth, -⟩ :=
      pushing.raises position before (Nat.le_of_eq same.symm)
    exact ⟨after, followed, by rw [depth, same]⟩
  runs arguments enough stack same := by
    obtain ⟨results, length, pushes⟩ :=
      pushing.pushes arguments enough stack (Nat.le_of_eq same.symm)
    obtain ⟨r, rfl⟩ := List.length_eq_one_iff.mp length
    cases r with
    | error f => exact .inl (pushes.fault f List.mem_cons_self)
    | ok v => exact .inr ⟨v, pushes.values [v] rfl⟩

/-- A translation is laid out in an order of sub-formulas with their trees:
those that the expression uses, each once. First comes the code of the trees,
and each stands on the results of those before it; then comes the code of the
expression, which stands on all of them. -/
structure Translation.LaidOut (translation : Translation) (scope : Scope)
    (e : Expr) (order : List String) (trees : List Expr) : Prop where
  distinct : order.Nodup
  complete : ∀ name, name ∈ order ↔ name ∈ scope.subFormulas e
  reads : List.Forall₂ scope.Reads order trees
  slots : translation.slotCount = order.length
  instructions : translation.instructions =
    (trees.map (scope.code (numberIn order))).flatten ++
      scope.code (numberIn order) e
  block : ∀ (k : Nat) tree, trees[k]? = some tree →
    scope.StandsOn k (scope.code (numberIn order) tree)
  main : scope.StandsOn order.length (scope.code (numberIn order) e)
  length : translation.instructions.length =
    countNodes e.preorder + (trees.map fun tree => countNodes tree.preorder).sum

/-- Blocks that are code of trees. -/
theorem exists_trees {scope : Scope} {number : String → UInt8}
    {order : List String} {blocks : List (List Instruction)}
    (coded : List.Forall₂ (fun name block =>
      ∃ tree, scope.Reads name tree ∧ block = scope.code number tree)
      order blocks) :
    ∃ trees, List.Forall₂ scope.Reads order trees ∧
      blocks = trees.map (scope.code number) := by
  induction coded with
  | nil => exact ⟨[], .nil, rfl⟩
  | cons first _ ih =>
    obtain ⟨tree, read, rfl⟩ := first
    obtain ⟨trees, reads, rfl⟩ := ih
    exact ⟨tree :: trees, .cons read reads, rfl⟩

section

variable {scope : Scope} {e : Expr} {log : Log} {main : List Instruction}

/-- The tree at a place is that of the sub-formula there. -/
theorem exists_read {order : List String} {trees : List Expr}
    (reads : List.Forall₂ scope.Reads order trees) {k : Nat} {tree : Expr}
    (entry : trees[k]? = some tree) :
    ∃ name, order[k]? = some name ∧ scope.Reads name tree := by
  obtain ⟨inside, rfl⟩ := List.getElem?_eq_some_iff.mp entry
  have inside' : k < order.length := reads.length_eq ▸ inside
  exact ⟨order[k], List.getElem?_eq_getElem inside', reads.get inside' inside⟩

/-- What is mentioned at earlier places has numbers up to the place. -/
theorem numbered_of_earlier {order : List String} (distinct : order.Nodup)
    (few : order.length ≤ 255) {nodes : List Expr} {k : Nat}
    (inside : k ≤ order.length)
    (earlier : ∀ name, scope.Mentions nodes name → scope.Abbreviates name →
      ∃ j < k, order[j]? = some name) :
    scope.Numbered (numberIn order) k nodes := by
  intro name mentions abbreviates
  obtain ⟨j, before, there⟩ := earlier name mentions abbreviates
  rw [numberIn_of_getElem? distinct there, toNat_ofNat_of_lt (by omega)]
  exact ⟨Nat.succ_pos j, before⟩

/-- What has been put out for an expression is laid out. -/
theorem Emits.laidOut (sound : scope.table.Sound)
    (few : scope.parameters.length ≤ 256)
    (emitted : Emits scope [] {} [e] main log)
    (covered : scope.Covered e [] e.preorder {} log) :
    ∃ trees, Translation.LaidOut
      ⟨log.blocks.flatten ++ main, log.blocks.length, log.used⟩ scope e log.order
      trees := by
  have order := covered.settled.order
  have distinct : log.order.Nodup := List.nodup_reverse.mpr order.nodup
  have bound : log.order.length ≤ 255 := by
    rw [Log.order, List.length_reverse]
    exact covered.settled.few
  obtain ⟨laid, -, code⟩ := emitted.laid sound ⟨rfl, nofun, fun _ _ => .nil⟩
  -- the log numbers the blocks by their places, so this is a numbering of it
  have numbers := laid.numbers distinct
  obtain ⟨trees, reads, blocks⟩ := exists_trees (laid.blocks _ numbers)
  have own : main = scope.code (numberIn log.order) e := by
    rw [code _ numbers]
    simp [Scope.codeAll]
  have callable {k : Nat} {tree : Expr} (entry : trees[k]? = some tree) :
      Callable tree.preorder := by
    obtain ⟨name, place, read⟩ := exists_read reads entry
    obtain ⟨tree', read', callable, -⟩ :=
      order.tree (List.mem_reverse.mp (List.mem_of_getElem? place))
    cases read.unique sound.ascending read'
    exact callable
  have block (k : Nat) (tree : Expr) (entry : trees[k]? = some tree) :
      scope.StandsOn k (scope.code (numberIn log.order) tree) := by
    obtain ⟨name, place, read⟩ := exists_read reads entry
    have inside := (List.getElem?_eq_some_iff.mp place).1
    have numbered := numbered_of_earlier distinct bound (Nat.le_of_lt inside)
      fun inner mentions abbreviates =>
        order.earlier sound.ascending place read mentions abbreviates
    exact ((Scope.pushing_code sound.ascending few _ k).1 tree (callable entry)
      numbered).standsOn
  have whole : scope.Numbered (numberIn log.order) log.order.length e.preorder :=
    numbered_of_earlier distinct bound (Nat.le_refl _)
      fun name mentions abbreviates => by
        have member : name ∈ log.order :=
          List.mem_reverse.mpr (covered.mentioned name mentions abbreviates)
        obtain ⟨j, there⟩ := List.mem_iff_getElem?.mp member
        exact ⟨j, (List.getElem?_eq_some_iff.mp there).1, there⟩
  have lengths : ∀ tree ∈ trees,
      (scope.code (numberIn log.order) tree).length = countNodes tree.preorder := by
    intro tree member
    obtain ⟨k, entry⟩ := List.mem_iff_getElem?.mp member
    exact (scope.length_code _).1 tree (callable entry)
  refine ⟨trees, distinct, fun name => ?_, reads, laid.count, ?_, block,
    ((Scope.pushing_code sound.ascending few _ _).1 e covered.callable
      whole).standsOn, ?_⟩
  · rw [Log.order, List.mem_reverse]
    exact order.mem_iff sound.ascending covered.callable covered.mentioned
  · simp only
    rw [← own, ← blocks]
  · simp only
    rw [List.length_append, own, (scope.length_code _).1 e covered.callable, blocks,
      List.length_flatten, List.map_map, Nat.add_comm]
    exact congrArg (fun counts => _ + List.sum counts) (List.map_congr_left lengths)

end

/-- **Layout.** A translation is laid out in an order of the sub-formulas that
the expression uses, with as many slots as there are of them. -/
theorem translate_layout {table : VariableTable} (sound : table.Sound)
    {parameters : List String} {e : Expr} {translation : Translation}
    (translated : (translate table parameters e).1 = .ok translation) :
    let scope : Scope := ⟨parameters.map lower, table⟩
    (∃ order trees, translation.LaidOut scope e order trees) ∧
      translation.slotCount = (scope.subFormulas e).ncard := by
  intro scope
  obtain ⟨few, log, main, run, rfl⟩ := run_of_translate translated
  have sound : scope.table.Sound := sound
  have count : scope.parameters.length = parameters.length := List.length_map _
  have covered : scope.Covered e [] e.preorder {} log := by
    have opened : scope.Opened e [] e.preorder := ⟨⟨e, .self, fun _ => id⟩, nofun⟩
    have meets := (meets_emit sound e).1 [] e opened {}
      ⟨.nil, rfl, Nat.zero_le _⟩
    unfold Emit.Meets at meets
    rwa [run] at meets
  obtain ⟨trees, laidOut⟩ := Emits.laidOut sound
    (count ▸ few) (emits_of_emit run) covered
  refine ⟨⟨log.order, trees, laidOut⟩, ?_⟩
  have size : (scope.subFormulas e).encard = log.names.length :=
    covered.settled.order.encard_eq sound.ascending covered.callable covered.mentioned
  rw [Set.ncard, size]
  exact covered.settled.count

/-- One block for both uses of `s`, and eight instructions in all. -/
theorem translate_layout_doubled :
    let e := Expr.binary .sub (.binary .mul (.reference "s") (.reference "s"))
      (.reference "a")
    ∃ translation order trees,
      (translate (.ofList [doubled]) ["A"] e).1 = .ok translation ∧
      translation.LaidOut ⟨["A"].map lower, .ofList [doubled]⟩ e order trees ∧
      order.length = 1 ∧ translation.instructions.length = 8 := by
  intro e
  obtain ⟨⟨order, trees, laidOut⟩, -⟩ := translate_layout sound_doubled
    translate_doubled
  exact ⟨_, order, trees, translate_doubled, laidOut, laidOut.slots.symm, rfl⟩

end FieldMesh.Formula
