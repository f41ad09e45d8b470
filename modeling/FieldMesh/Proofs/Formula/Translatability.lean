import FieldMesh.Proofs.Formula.Dependence

/-!
# What can be translated

Translation goes through the sub-formulas of an expression once, in the order
in which they are first needed, and marks those that it is in the middle of.
Here this is compared with what the expression depends on.

* `Log.Settled`: the sub-formulas that have a block are in an order in which
  each names earlier ones only;
* `Scope.Opened`, `Scope.Covered`: what is known before and after some nodes
  are put out. `meets_emit` leads from one to the other, or to an error for
  which the expression is to blame;
* **main result**: an expression is translated if and only if it can be
  (`translate_ok_iff`).
-/

namespace FieldMesh.Formula

open FieldMesh.Program (Opcode Instruction)
open FieldMesh.Text

/-! ## Blame -/

/-- An error for which the expression is to blame: it cannot be translated,
and a name that is reported as recursive is on a cycle. -/
def Scope.Blames (scope : Scope) (e : Expr) (failure : CompileError) : Prop :=
  ¬ scope.Translatable e ∧
    ∀ name, failure = .recursiveDefinition name →
      scope.Uses e name ∧ Relation.TransGen scope.Refers name name

theorem Functions.ne_recursive_of_resolve {function name : String}
    {count : Nat} {failure : CompileError}
    (failed : resolve function count = .error failure) :
    failure ≠ .recursiveDefinition name := by
  rintro rfl
  unfold resolve at failed
  simp only at failed
  split at failed
  · cases failed
  · split at failed <;> cases failed

theorem Variable.ne_recursive_of_tree {v : Variable} {name : String}
    {failure : CompileError} (failed : v.tree = .error failure) :
    failure ≠ .recursiveDefinition name := by
  rintro rfl
  unfold tree readTree at failed
  split at failed
  · cases failed
  · split at failed <;> cases failed

/-- A sub-formula without a tree is to blame. -/
theorem Scope.blames_of_text {scope : Scope} {e : Expr} {name text : String}
    {failure : CompileError} (used : scope.Uses e name)
    (spells : scope.Spells name text)
    (unread : ∀ tree, parse text ≠ .ok (some tree))
    (other : ∀ name, failure ≠ .recursiveDefinition name) :
    scope.Blames e failure := by
  refine ⟨fun translatable => ?_, fun name same => absurd same (other name)⟩
  obtain ⟨tree, read⟩ := translatable.texts name text used spells
  exact unread tree read

theorem parse_empty_ne (tree : Expr) : parse "" ≠ .ok (some tree) := by
  have empty : parse "" = .ok none := by with_unfolding_all rfl
  rw [empty]
  nofun

/-! ## Before and after -/

/-- The sub-formulas that have a block, the last first. -/
def Log.names (log : Log) : List String := log.slots.map Prod.fst

theorem Log.lookup_eq_none {log : Log} {name : String} :
    log.slots.lookup name = none ↔ name ∉ log.names := by
  rw [List.lookup_eq_none_iff, names, List.mem_map]
  constructor
  · rintro other ⟨entry, member, rfl⟩
    exact absurd (other entry member) (by simp)
  · intro missing entry member
    exact bne_iff_ne.mpr fun same => missing ⟨entry, member, same.symm⟩

theorem Log.mem_of_lookup {log : Log} {name : String} {slot : UInt8}
    (has : log.slots.lookup name = some slot) : name ∈ log.names := by
  by_contra missing
  rw [lookup_eq_none.mpr missing] at has
  cases has

/-- The blocks in a log belong to sub-formulas in an order, which are not too
many. -/
structure Log.Settled (scope : Scope) (e : Expr) (log : Log) : Prop where
  order : scope.Ordered e log.names
  count : log.blocks.length = log.names.length
  few : log.names.length ≤ 255

/-- Some nodes are to be put out while the sub-formulas of a path are being
translated: the nodes belong to a tree that the expression leads to, and each
of the path leads to every sub-formula that they mention. -/
structure Scope.Opened (scope : Scope) (e : Expr) (path : List String)
    (nodes : List Expr) : Prop where
  part : ∃ tree, scope.Reaches e tree ∧ nodes ⊆ tree.preorder
  below : ∀ outer ∈ path, ∀ inner, scope.Mentions nodes inner →
    scope.Abbreviates inner → Relation.TransGen scope.Refers outer inner

/-- Some nodes have been put out: the sub-formulas that they mention have
blocks, those of the path have got none, and the calls are fine. -/
structure Scope.Covered (scope : Scope) (e : Expr) (path : List String)
    (nodes : List Expr) (before after : Log) : Prop where
  settled : after.Settled scope e
  kept : before.names ⊆ after.names
  outside : ∀ name ∈ path, name ∈ after.names → name ∈ before.names
  mentioned : ∀ name, scope.Mentions nodes name → scope.Abbreviates name →
    name ∈ after.names
  callable : Callable nodes

section Nodes

variable {scope : Scope} {e : Expr} {path : List String}
  {nodes more : List Expr} {before mid after : Log}

theorem Scope.mentions_reference {name other : String} :
    scope.Mentions (Expr.reference name).preorder other ↔
      other = name ∧ scope.Free name := by
  rw [Expr.preorder, Mentions, List.mem_singleton]
  constructor
  · rintro ⟨same, free⟩
    cases same
    exact ⟨rfl, free⟩
  · rintro ⟨rfl, free⟩
    exact ⟨rfl, free⟩

theorem callable_reference {name : String} :
    Callable (Expr.reference name).preorder := by
  intro function arguments member
  cases List.mem_singleton.mp member

theorem Scope.Mentions.mono {name : String} (mentions : scope.Mentions nodes name)
    (subset : nodes ⊆ more) : scope.Mentions more name :=
  ⟨subset mentions.1, mentions.2⟩

theorem Scope.Opened.mono (opened : scope.Opened e path more)
    (subset : nodes ⊆ more) : scope.Opened e path nodes := by
  obtain ⟨tree, reached, inside⟩ := opened.part
  refine ⟨⟨tree, reached, fun _ member => inside (subset member)⟩, ?_⟩
  intro outer onPath inner mentions abbreviates
  exact opened.below outer onPath inner (mentions.mono subset) abbreviates

theorem Scope.Opened.uses (opened : scope.Opened e path nodes) {name : String}
    (mentions : scope.Mentions nodes name) : scope.Uses e name := by
  obtain ⟨tree, reached, inside⟩ := opened.part
  exact ⟨tree, reached, mentions.mono inside⟩

/-- The tree of a sub-formula that some nodes mention is opened with it on the
path. -/
theorem Scope.Opened.tree (opened : scope.Opened e path nodes) {name : String}
    (mentions : scope.Mentions nodes name) {tree : Expr}
    (read : scope.Reads name tree) :
    scope.Opened e (name :: path) tree.preorder := by
  obtain ⟨outer, reached, inside⟩ := opened.part
  refine ⟨⟨tree, .through reached (mentions.mono inside) read, fun _ => id⟩, ?_⟩
  intro above onPath inner mentions' abbreviates
  have refers : scope.Refers name inner :=
    ⟨⟨tree, read, mentions'⟩, abbreviates⟩
  rcases List.mem_cons.mp onPath with rfl | onPath
  · exact .single refers
  · exact (opened.below above onPath name mentions read.abbreviates).tail refers

/-- Nodes that mention no sub-formula and call nothing change nothing. -/
theorem Scope.Covered.leaf (settled : after.Settled scope e)
    (same : after.names = before.names)
    (mentioned : ∀ name, scope.Mentions nodes name → scope.Abbreviates name →
      name ∈ after.names)
    (callable : Callable nodes) :
    scope.Covered e path nodes before after where
  settled := settled
  kept := same ▸ fun _ => id
  outside _ _ := same ▸ id
  mentioned := mentioned
  callable := callable

theorem Scope.Covered.none (settled : after.Settled scope e) :
    scope.Covered e path [] after after := by
  refine .leaf settled rfl (fun name mentions _ => ?_)
    fun function arguments member => ?_
  · cases mentions.1
  · cases member

/-- Nodes after nodes. -/
theorem Scope.Covered.append (first : scope.Covered e path more before mid)
    (second : scope.Covered e path nodes mid after) :
    scope.Covered e path (nodes ++ more) before after where
  settled := second.settled
  kept _ member := second.kept (first.kept member)
  outside name onPath member :=
    first.outside name onPath (second.outside name onPath member)
  mentioned name mentions abbreviates := by
    rcases List.mem_append.mp mentions.1 with left | right
    · exact second.mentioned name ⟨left, mentions.2⟩ abbreviates
    · exact second.kept
        (first.mentioned name ⟨right, mentions.2⟩ abbreviates)
  callable function arguments member := by
    rcases List.mem_append.mp member with left | right
    · exact second.callable function arguments left
    · exact first.callable function arguments right

/-- A node that is no name goes above others, if it is no wrong call. -/
theorem Scope.Covered.node (covered : scope.Covered e path nodes before after)
    {node : Expr} (operation : ∀ name, Expr.reference name ≠ node)
    (callable : Callable [node]) :
    scope.Covered e path (node :: nodes) before after where
  settled := covered.settled
  kept := covered.kept
  outside := covered.outside
  mentioned name mentions abbreviates := by
    rcases List.mem_cons.mp mentions.1 with same | member
    · exact absurd same (operation name)
    · exact covered.mentioned name ⟨member, mentions.2⟩ abbreviates
  callable function arguments member := by
    rcases List.mem_cons.mp member with same | member
    · exact callable function arguments (List.mem_singleton.mpr same)
    · exact covered.callable function arguments member

theorem Scope.Covered.unary (op : UnaryOp) (operand : Expr)
    (covered : scope.Covered e path nodes before after) :
    scope.Covered e path (.unary op operand :: nodes) before after :=
  covered.node (fun _ same => by cases same) fun _ _ member => by
    cases List.mem_singleton.mp member

theorem Scope.Covered.binary (op : BinaryOp) (left right : Expr)
    (covered : scope.Covered e path nodes before after) :
    scope.Covered e path (.binary op left right :: nodes) before after :=
  covered.node (fun _ same => by cases same) fun _ _ member => by
    cases List.mem_singleton.mp member

theorem Scope.Covered.call {function : String} {arguments : List Expr}
    {op : Opcode} (resolved : Functions.resolve function arguments.length = .ok op)
    (covered : scope.Covered e path nodes before after) :
    scope.Covered e path (.call function arguments :: nodes) before after :=
  covered.node (fun _ same => by cases same) fun _ _ member => by
    cases List.mem_singleton.mp member
    exact Functions.resolve_ok_iff.mp ⟨op, resolved⟩

/-- A name that is no sub-formula. -/
theorem Scope.Covered.constant (ascending : scope.table.Ascending)
    {name : String} (settled : (before.use name).Settled scope e) {v : Variable}
    (declares : scope.Declares name v) (constant : v.kind ≠ .subFormula) :
    scope.Covered e path (Expr.reference name).preorder before
      (before.use name) := by
  refine .leaf settled rfl (fun other mentions abbreviates => ?_)
    callable_reference
  obtain ⟨rfl, -⟩ := Scope.mentions_reference.mp mentions
  obtain ⟨_, w, declares', kind, -⟩ := abbreviates
  cases declares.unique ascending declares'
  exact absurd kind constant

/-- A sub-formula that has a block already. -/
theorem Scope.Covered.shared {name : String}
    (settled : (before.use name).Settled scope e)
    (member : name ∈ before.names) :
    scope.Covered e path (Expr.reference name).preorder before
      (before.use name) := by
  refine .leaf settled rfl (fun other mentions _ => ?_) callable_reference
  obtain ⟨rfl, -⟩ := Scope.mentions_reference.mp mentions
  exact member

/-- A sub-formula whose tree has been put out comes next in the order. While
it was on the path it got no block. -/
theorem Scope.Covered.order {name : String} {tree : Expr}
    (covered : scope.Covered e (name :: path) tree.preorder before after)
    (new : name ∉ before.names) (used : scope.Uses e name)
    (reads : scope.Reads name tree) :
    scope.Ordered e (name :: after.names) :=
  .cons covered.settled.order
    (fun member => new (covered.outside name (.head _) member)) used reads
    covered.callable covered.mentioned

/-- It gets its block then. -/
theorem Scope.Covered.complete {name : String} {tree : Expr}
    (covered : scope.Covered e (name :: path) tree.preorder
      ((before.use name).noteRead name) after)
    (new : name ∉ before.names) (used : scope.Uses e name)
    (reads : scope.Reads name tree) (closed : name ∉ path)
    (fits : after.blocks.length < 255) (slot : UInt8)
    (block : List Instruction) :
    scope.Covered e path (Expr.reference name).preorder before
      (after.complete name slot block) where
  settled := by
    refine ⟨covered.order new used reads, ?_, ?_⟩
    · show (after.blocks ++ [block]).length = (name :: after.names).length
      rw [List.length_append, covered.settled.count]
      rfl
    · rw [covered.settled.count] at fits
      exact fits
  kept _ member := List.mem_cons_of_mem _ (covered.kept member)
  outside other above member := by
    rcases List.mem_cons.mp member with rfl | member
    · exact absurd above closed
    · exact covered.outside other (List.mem_cons_of_mem _ above) member
  mentioned other mentions _ := by
    obtain ⟨rfl, -⟩ := Scope.mentions_reference.mp mentions
    exact .head _
  callable := callable_reference

/-- A sub-formula on the path is mentioned again. -/
theorem Scope.Opened.blames_of_cycle {name : String}
    (opened : scope.Opened e path (Expr.reference name).preorder)
    (mentions : scope.Mentions (Expr.reference name).preorder name)
    (abbreviates : scope.Abbreviates name) (inProgress : name ∈ path) :
    scope.Blames e (.recursiveDefinition name) := by
  have used := opened.uses mentions
  have cycle := opened.below name inProgress name mentions abbreviates
  refine ⟨fun translatable => translatable.acyclic name used cycle, ?_⟩
  rintro other ⟨⟩
  exact ⟨used, cycle⟩

/-- One sub-formula more than there can be. -/
theorem Scope.Ordered.blames_of_full {name : String}
    (order : scope.Ordered e (name :: after.names))
    (full : 255 ≤ after.names.length) :
    scope.Blames e .tooManySubFormulas := by
  refine ⟨fun translatable => ?_, nofun⟩
  have few : (name :: after.names).length ≤ 255 := by
    exact_mod_cast order.length_le.trans translatable.few
  exact absurd few (Nat.not_le.mpr (Nat.lt_succ_of_le full))

end Nodes

/-! ## Emission -/

/-- Emission goes from what is known before to what is known after, or the
expression is to blame for its error. -/
theorem meets_emit {scope : Scope} (sound : scope.table.Sound) (e : Expr) :
    (∀ path part, scope.Opened e path part.preorder →
      ∀ log : Log, log.Settled scope e →
      Emit.Meets log (emit scope path part)
        (fun _ after => scope.Covered e path part.preorder log after)
        (scope.Blames e)) ∧
    (∀ path parts, scope.Opened e path (Expr.preorderAll parts) →
      ∀ log : Log, log.Settled scope e →
      Emit.Meets log (emitAll scope path parts)
        (fun _ after =>
          scope.Covered e path (Expr.preorderAll parts) log after)
        (scope.Blames e)) := by
  apply emit.mutual_induct scope
  case case1 =>
    intro path value opened log settled
    rw [emit]
    refine Emit.meets_pure ((Scope.Covered.none settled).node ?_ ?_)
    · intro name same
      cases same
    · intro function arguments member
      cases List.mem_singleton.mp member
  case case2 =>
    intro path name index found opened log settled
    rw [emit, found]
    refine Emit.meets_pure (.leaf settled rfl ?_ callable_reference)
    rintro other mentions -
    obtain ⟨rfl, free⟩ := Scope.mentions_reference.mp mentions
    exact absurd (found.symm.trans free) (by simp)
  case case3 =>
    intro path name free nested opened log settled
    have mentions : scope.Mentions (Expr.reference name).preorder name :=
      Scope.mentions_reference.mpr ⟨rfl, free⟩
    have used := opened.uses mentions
    have noted : (log.use name).Settled scope e :=
      ⟨settled.order, settled.count, settled.few⟩
    have spells {v : Variable} (found : scope.table.find? name = some v)
        (kind : v.kind = .subFormula) : scope.Spells name v.text :=
      ⟨v, Scope.declares_of_find? sound.ascending found, kind, rfl⟩
    have treeIff {v : Variable} (found : scope.table.find? name = some v)
        {tree : Expr} : v.tree = .ok tree ↔ parse v.text = .ok (some tree) :=
      Variable.tree_eq_ok_iff (sound.fresh v (VariableTable.find?_some found).1)
    refine Emit.meets_reference free ?missing ?undeclared ?declared ?cycle
      ?shared ?unread ?block
    case missing =>
      intro absent kind
      have declares := Scope.declares_of_find? sound.ascending absent
      exact Scope.blames_of_text used ⟨_, declares, kind, rfl⟩ parse_empty_ne
        fun _ same => by cases same
    case undeclared =>
      intro absent constant
      exact .constant sound.ascending noted
        (Scope.declares_of_find? sound.ascending absent) constant
    case declared =>
      intro v found constant
      exact .constant sound.ascending noted
        (Scope.declares_of_find? sound.ascending found) constant
    case cycle =>
      intro v found kind inProgress
      exact opened.blames_of_cycle mentions ⟨_, spells found kind⟩
        (List.contains_iff_mem.mp inProgress)
    case shared =>
      intro v slot found kind outside has
      exact .shared noted (Log.mem_of_lookup has)
    case unread =>
      intro v failure found kind failed
      refine Scope.blames_of_text used (spells found kind) (fun tree said => ?_)
        fun other => Variable.ne_recursive_of_tree failed
      rw [(treeIff found).mpr said] at failed
      cases failed
    case block =>
      intro v tree found kind outside lacks read
      have closed : ¬ path.contains name = true := by simpa using outside
      have new : name ∉ log.names := Log.lookup_eq_none.mp lacks
      have reads : scope.Reads name tree :=
        ⟨v.text, spells found kind, (treeIff found).mp read⟩
      refine (nested v found closed tree (opened.tree mentions reads)
        ((log.use name).noteRead name)
        ⟨noted.order, noted.count, noted.few⟩).mono fun block after covered => ?_
      -- one block more: only its slot can still be refused
      split
      · next fits =>
        exact covered.complete new used reads
          (fun above => closed (List.contains_iff_mem.mpr above)) fits _ block
      · next full =>
        refine (covered.order new used reads).blames_of_full ?_
        rw [← covered.settled.count]
        exact Nat.not_lt.mp full
  case case4 =>
    intro path op operand ih opened log settled
    rw [emit]
    rw [Expr.preorder] at opened ⊢
    refine Emit.meets_bind ((ih (opened.mono (List.subset_cons_self _ _)) log
      settled).mono fun code after covered => ?_)
    cases op <;> exact Emit.meets_pure (covered.unary _ operand)
  case case5 =>
    intro path op left right ihRight ihLeft opened log settled
    rw [emit]
    rw [Expr.preorder] at opened ⊢
    have operands := opened.mono (List.subset_cons_self _ _)
    refine Emit.meets_bind ((ihRight (operands.mono
      (List.subset_append_right _ _)) log settled).mono fun _ mid second => ?_)
    refine Emit.meets_bind ((ihLeft (operands.mono
      (List.subset_append_left _ _)) mid second.settled).mono
        fun _ after first => ?_)
    exact Emit.meets_pure ((second.append first).binary op left right)
  case case6 =>
    intro path function arguments ih opened log settled
    rw [emit]
    rw [Expr.preorder] at opened ⊢
    refine Emit.meets_bind (Emit.meets_lift (fun opcode resolved => ?_)
      (fun failure failed => ?_))
    · refine Emit.meets_bind ((ih (opened.mono (List.subset_cons_self _ _)) log
        settled).mono fun code after covered => ?_)
      exact Emit.meets_pure (covered.call resolved)
    · refine ⟨fun translatable => ?_, fun name same =>
        absurd same (Functions.ne_recursive_of_resolve failed)⟩
      obtain ⟨tree, reached, inside⟩ := opened.part
      obtain ⟨op, resolved⟩ := Functions.resolve_ok_iff.mpr
        (translatable.calls tree reached function arguments
          (inside (List.mem_cons_self)))
      rw [failed] at resolved
      cases resolved
  case case7 =>
    intro path opened log settled
    rw [emitAll]
    exact Emit.meets_pure (.none settled)
  case case8 =>
    intro path first rest ihRest ih opened log settled
    rw [emitAll]
    rw [Expr.preorderAll] at opened ⊢
    refine Emit.meets_bind ((ihRest (opened.mono
      (List.subset_append_right _ _)) log settled).mono fun _ mid later => ?_)
    refine Emit.meets_bind ((ih (opened.mono
      (List.subset_append_left _ _)) mid later.settled).mono
        fun _ after before => ?_)
    exact Emit.meets_pure (later.append before)

/-! ## Whole expressions -/

/-- What a translation needs, or what is to blame for its error. -/
theorem translate_cases {table : VariableTable} (sound : table.Sound)
    (parameters : List String) (e : Expr) :
    ((∃ translation, (translate table parameters e).1 = .ok translation) ∧
      parameters.length ≤ 256 ∧
      Scope.Translatable ⟨parameters.map lower, table⟩ e) ∨
    ∃ failure, (translate table parameters e).1 = .error failure ∧
      (failure = .tooManyParameters parameters.length ∧
          256 < parameters.length ∨
        Scope.Blames ⟨parameters.map lower, table⟩ e failure) := by
  unfold translate
  split
  · next many => exact .inr ⟨_, rfl, .inl ⟨rfl, many⟩⟩
  · next few =>
    let scope : Scope := ⟨parameters.map lower, table⟩
    have opened : scope.Opened e [] e.preorder :=
      ⟨⟨e, .self, fun _ => id⟩, nofun⟩
    have empty : Log.Settled scope e {} := ⟨.nil, rfl, Nat.zero_le _⟩
    have meets := (meets_emit sound e).1 [] e opened {} empty
    unfold Emit.Meets at meets
    simp only
    split at meets
    · next main log ran =>
      rw [ran]
      exact .inl ⟨⟨_, rfl⟩, Nat.not_lt.mp few,
        meets.settled.order.translatable sound.ascending meets.callable
          meets.mentioned meets.settled.few⟩
    · next failure log ran =>
      rw [ran]
      exact .inr ⟨failure, rfl, .inr meets⟩

/-- An expression is translated if and only if there are at most 256
parameters and it can be translated: every call is one of a function that
there is, every sub-formula has a tree, none leads back to itself, and there
are at most 255. A name that is reported as recursive is on a cycle. -/
theorem translate_ok_iff {table : VariableTable} (sound : table.Sound)
    (parameters : List String) (e : Expr) :
    ((∃ translation, (translate table parameters e).1 = .ok translation) ↔
      parameters.length ≤ 256 ∧
        Scope.Translatable ⟨parameters.map lower, table⟩ e) ∧
    ∀ name,
      (translate table parameters e).1 = .error (.recursiveDefinition name) →
      Scope.Uses ⟨parameters.map lower, table⟩ e name ∧
        Relation.TransGen (Scope.Refers ⟨parameters.map lower, table⟩)
          name name := by
  rcases translate_cases sound parameters e with
    ⟨⟨translation, translated⟩, conditions⟩ | ⟨failure, failed, blame⟩
  · refine ⟨⟨fun _ => conditions, fun _ => ⟨translation, translated⟩⟩, ?_⟩
    intro name failed
    rw [translated] at failed
    cases failed
  · refine ⟨⟨?_, ?_⟩, ?_⟩
    · rintro ⟨translation, translated⟩
      rw [failed] at translated
      cases translated
    · rintro ⟨few, translatable⟩
      rcases blame with ⟨-, many⟩ | ⟨untranslatable, -⟩
      · exact absurd few (Nat.not_le.mpr many)
      · exact absurd translatable untranslatable
    · intro name recursive
      rw [failed] at recursive
      cases recursive
      rcases blame with ⟨impossible, -⟩ | ⟨-, cycle⟩
      · cases impossible
      · exact cycle name rfl

/-- A sub-formula that comes up while it is being translated is reported. -/
theorem run_emit_again {scope : Scope} {path : List String} {name : String}
    {v : Variable} {log : Log} (free : scope.Free name)
    (found : scope.table.find? name = some v) (kind : v.kind = .subFormula)
    (inProgress : path.contains name = true) :
    (emit scope path (.reference name)).run log =
      (.error (.recursiveDefinition name), log.use name) := by
  rw [run_emit_subFormula free found kind, inProgress]
  rfl

/-- An error in the tree of a sub-formula ends the translation. -/
theorem run_emit_block_error {scope : Scope} {path : List String}
    {name : String} {v : Variable} {tree : Expr} {failure : CompileError}
    {log log' : Log} (free : scope.Free name)
    (found : scope.table.find? name = some v) (kind : v.kind = .subFormula)
    (outside : path.contains name = false)
    (lacks : log.slots.lookup name = none) (read : v.tree = .ok tree)
    (inner : (emit scope (name :: path) tree).run
      ((log.use name).noteRead name) = (.error failure, log')) :
    (emit scope path (.reference name)).run log = (.error failure, log') := by
  rw [run_emit_subFormula free found kind, outside, lacks, read]
  simp only [Bool.false_eq_true, if_false, inner]

/-- `s` is `a * a`, and `sin(s) + s` uses it twice; or `s` is `s`. -/
theorem translate_ok_iff_square :
    (∃ translation, (translate (.ofList [.subFormula "s" "a * a"]) ["A"]
      (.binary .add (.call "sin" [.reference "s"]) (.reference "s"))).1 =
        .ok translation) ∧
    let loop := VariableTable.ofList [.subFormula "s" "s"]
    (translate loop ["A"] (.reference "s")).1 =
        .error (.recursiveDefinition "s") ∧
      Relation.TransGen (Scope.Refers ⟨["A"].map lower, loop⟩) "s" "s" := by
  have lowered : ["A"].map lower = ["a"] := by decide +kernel
  have sound (text : String) :
      (VariableTable.ofList [.subFormula "s" text]).Sound :=
    VariableTable.sound_ofList fun v member => by
      cases List.mem_singleton.mp member
      nofun
  constructor
  · refine (translate_ok_iff (sound "a * a") ["A"] _).1.mpr ⟨by decide, ?_⟩
    rw [lowered]
    let square := Expr.binary .mul (.reference "a") (.reference "a")
    have read : parse "a * a" = .ok (some square) := by
      with_unfolding_all rfl
    -- the tree of `s` names a parameter only, so `s` alone is an order
    have bare (inner : String)
        (mentions : Scope.Mentions ⟨["a"], .ofList [.subFormula "s" "a * a"]⟩
          square.preorder inner) : inner ∈ [] := by
      obtain ⟨member, free⟩ := mentions
      simp [square, Expr.preorder] at member
      subst member
      cases free
    have order : Scope.Ordered ⟨["a"], .ofList [.subFormula "s" "a * a"]⟩
        (.binary .add (.call "sin" [.reference "s"]) (.reference "s"))
        ["s"] := by
      refine .cons .nil List.not_mem_nil ⟨_, .self, ?_⟩
        ⟨"a * a", ⟨_, .declared (.head _) rfl, rfl, rfl⟩, read⟩ ?_
        fun inner mentions _ => bare inner mentions
      · exact ⟨by simp [Expr.preorder], rfl⟩
      · intro function arguments member
        simp [square, Expr.preorder] at member
    refine order.translatable (sound "a * a").ascending ?_ ?_ (by decide)
    · intro function arguments member
      simp [Expr.preorder, Expr.preorderAll] at member
      obtain ⟨rfl, rfl⟩ := member
      exact ⟨.sin, rfl, rfl⟩
    · rintro inner ⟨member, -⟩ -
      simpa [Expr.preorder, Expr.preorderAll] using member
  · intro loop
    let scope : Scope := ⟨["a"], loop⟩
    have free : scope.Free "s" := rfl
    have found : scope.table.find? "s" = some (.subFormula "s" "s") :=
      (VariableTable.find?_eq_some_iff (sound "s").ascending).mpr
        ⟨.head _, rfl⟩
    have tree : (Variable.subFormula "s" "s").tree = .ok (.reference "s") :=
      (Variable.tree_eq_ok_iff fun _ kept => by cases kept).mpr
        (by with_unfolding_all rfl)
    have failed : (translate loop ["A"] (.reference "s")).1 =
        .error (.recursiveDefinition "s") := by
      unfold translate
      rw [if_neg (by decide), lowered]
      simp only
      rw [run_emit_block_error free found rfl rfl rfl tree
        (run_emit_again free found rfl rfl)]
      rfl
    exact ⟨failed, ((translate_ok_iff (sound "s") ["A"] _).2 "s" failed).2⟩

end FieldMesh.Formula
