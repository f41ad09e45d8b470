import FieldMesh.Proofs.Formula.Recompilation
import FieldMesh.Proofs.Formula.TableEdits

/-!
# The names that are noted are those that are used

Translation notes a name when it comes to it, and comes to the text of a
sub-formula once. So it has to be shown that nothing is noted that is not used
(also if translation stops half-way), and that in the end nothing is left out,
although a sub-formula that has a block is not looked into again.

* `Log.Accurate`: only used names are noted, each once. Every step keeps it
  (`retraces_accurate`);
* `Scope.Noted`, `Log.Closed`: the names among some nodes are noted, and those
  in every sub-formula that has a block;
* `records_of_emits`: what is put out is noted;
* `VariableTable.Adds`: a table has some more names, which say what they say
  by themselves;
* **main result**: `compile_used`.
-/

namespace FieldMesh.Formula

open FieldMesh.Program (Instruction)
open FieldMesh.Text

/-! ## Nothing else is noted -/

/-- Names stay in order when one is put in. -/
theorem Names.pairwise_insert {name : String} {names : Names}
    (ascending : names.Pairwise (· < ·)) :
    (Names.insert name names).Pairwise (· < ·) := by
  induction names with
  | nil => exact List.pairwise_singleton _ _
  | cons first rest ih =>
    obtain ⟨above, ascending'⟩ := List.pairwise_cons.mp ascending
    unfold Names.insert
    split
    · next below =>
      refine List.pairwise_cons.mpr ⟨fun other member => ?_, ascending⟩
      rcases List.mem_cons.mp member with rfl | later
      · exact below
      · exact String.lt_trans below (above other later)
    · next notBelow =>
      split
      · exact ascending
      · next apart =>
        have below : first < name := by
          rcases String.le_total first name with le | le
          · exact String.not_le.mp fun le' => apart (String.le_antisymm le' le)
          · exact absurd (String.le_antisymm le (String.not_lt.mp notBelow)) apart
        refine List.pairwise_cons.mpr ⟨fun other member => ?_, ih ascending'⟩
        rcases Names.mem_insert.mp member with rfl | later
        · exact below
        · exact above other later

/-- Only names that an expression uses are noted, in ascending order. -/
structure Log.Accurate (scope : Scope) (e : Expr) (log : Log) : Prop where
  uses : ∀ name ∈ log.used, scope.Uses e name
  ascending : log.used.Pairwise (· < ·)

theorem Log.Accurate.start (scope : Scope) (e : Expr) :
    ({} : Log).Accurate scope e :=
  ⟨fun _ member => absurd member List.not_mem_nil, .nil⟩

theorem Log.Accurate.use {scope : Scope} {e : Expr} {log : Log} {name : String}
    (accurate : log.Accurate scope e) (used : scope.Uses e name) :
    (log.use name).Accurate scope e where
  uses other member := by
    rcases Log.mem_use.mp member with rfl | old
    · exact used
    · exact accurate.uses other old
  ascending := Names.pairwise_insert accurate.ascending

theorem Log.lasting_accurate (scope : Scope) (e : Expr) :
    scope.Lasting fun _ log => log.Accurate scope e where
  opened accurate _ _ := ⟨accurate.uses, accurate.ascending⟩
  closed := id
  complete accurate _ _ _ _ := ⟨accurate.uses, accurate.ascending⟩

/-- Whatever is put out of an expression, only names that it uses are noted,
also by steps that fail. -/
theorem retraces_accurate {scope : Scope} (sound : scope.table.Sound) (e : Expr)
    (agreed : String → Prop) :
    (∀ path part, scope.Opened e [] part.preorder →
      ∀ log : Log, log.Accurate scope e →
      Emit.Retraces (Log.Accurate scope e) agreed log (emit scope path part)
        (emit scope path part)) ∧
    (∀ path parts, scope.Opened e [] (Expr.preorderAll parts) →
      ∀ log : Log, log.Accurate scope e →
      Emit.Retraces (Log.Accurate scope e) agreed log (emitAll scope path parts)
        (emitAll scope path parts)) := by
  apply emit.mutual_induct scope
  case case1 =>
    intro path value opened log accurate
    rw [emit]
    exact Emit.retraces_pure accurate
  case case2 =>
    intro path name index found opened log accurate
    rw [emit, found]
    exact Emit.retraces_pure accurate
  case case3 =>
    intro path name free nested opened log accurate
    have mentions : scope.Mentions (Expr.reference name).preorder name :=
      Scope.mentions_reference.mpr ⟨rfl, free⟩
    have noted := accurate.use (opened.uses mentions)
    cases found : scope.table.find? name with
    | none =>
      have run := @run_emit_undeclared scope path name free found log
      by_cases constant : (Variable.implied (lower name)).kind = .subFormula
      · exact .of_use (y := throw _) (run.trans (if_pos constant))
          (Emit.retraces_throw noted)
      · exact .of_use (y := pure _) (run.trans (if_neg constant))
          (Emit.retraces_pure noted)
    | some v =>
      have meaning := VariableTable.meaning_of_find? found
      refine .of_use (run_emit_declared sound free found log) ?_
      rw [← meaning]
      refine retraces_refer (Log.lasting_accurate scope e) noted
        (Log.mem_use.mpr (.inl rfl)) fun outside kind tree read => ?_
      rw [meaning] at kind read
      -- the tree belongs to the expression, so its names are used as well
      have reads : scope.Reads name tree :=
        ⟨v.text, ⟨v, Scope.declares_of_find? sound.ascending found, kind, rfl⟩,
          read⟩
      exact nested v found outside tree
        ⟨(opened.tree mentions reads).part, List.forall_mem_nil _⟩
  case case4 =>
    intro path op operand ih opened log accurate
    rw [emit]
    refine Emit.retraces_bind (ih (opened.mono (List.subset_cons_self _ _)) log
      accurate) fun code mid _ accurate _ => ?_
    cases op <;> exact Emit.retraces_pure accurate
  case case5 =>
    intro path op left right ihRight ihLeft opened log accurate
    have operands := opened.mono (List.subset_cons_self _ _)
    have first := operands.mono (List.subset_append_left _ _)
    have second := operands.mono (List.subset_append_right _ _)
    rw [emit]
    refine Emit.retraces_bind (ihRight second log accurate)
      fun _ mid _ accurate _ => ?_
    refine Emit.retraces_bind (ihLeft first mid accurate)
      fun _ after _ accurate _ => ?_
    exact Emit.retraces_pure accurate
  case case6 =>
    intro path function arguments ih opened log accurate
    rw [emit]
    refine Emit.retraces_bind (Emit.retraces_lift accurate)
      fun op mid _ accurate _ => ?_
    refine Emit.retraces_bind (ih (opened.mono (List.subset_cons_self _ _)) mid
      accurate) fun _ after _ accurate _ => ?_
    exact Emit.retraces_pure accurate
  case case7 =>
    intro path opened log accurate
    rw [emitAll]
    exact Emit.retraces_pure accurate
  case case8 =>
    intro path first rest ihRest ih opened log accurate
    have front := opened.mono (List.subset_append_left _ _)
    have others := opened.mono (List.subset_append_right _ _)
    rw [emitAll]
    refine Emit.retraces_bind (ihRest others log accurate)
      fun _ mid _ accurate _ => ?_
    refine Emit.retraces_bind (ih front mid accurate)
      fun _ after _ accurate _ => ?_
    exact Emit.retraces_pure accurate

/-- So is what comes up when an expression is translated. -/
theorem accurate_translationLog {table : VariableTable} (sound : table.Sound)
    (parameters : List String) (e : Expr) :
    (translationLog table parameters e).Accurate ⟨parameters.map lower, table⟩ e :=
  have retraces := @retraces_accurate ⟨parameters.map lower, table⟩ sound e
    fun _ => True
  (retraces.1 [] e ⟨⟨e, .self, fun _ => id⟩, nofun⟩ {} (.start _ _)).kept

/-! ## Nothing is left out -/

/-- The names among some nodes are noted, and those of sub-formulas have
blocks. -/
def Scope.Noted (scope : Scope) (nodes : List Expr) (log : Log) : Prop :=
  ∀ name, scope.Mentions nodes name →
    name ∈ log.used ∧ (scope.Abbreviates name → name ∈ log.names)

/-- The names in the sub-formulas that have a block are noted. -/
def Log.Closed (scope : Scope) (log : Log) : Prop :=
  ∀ name ∈ log.names, ∀ tree, scope.Reads name tree →
    scope.Noted tree.preorder log

/-- Some nodes have been put out: their names are noted, and no block was
made whose names are not. -/
structure Scope.Records (scope : Scope) (nodes : List Expr)
    (before after : Log) : Prop where
  used : before.used ⊆ after.used
  names : before.names ⊆ after.names
  noted : scope.Noted nodes after
  closed : before.Closed scope → after.Closed scope

section

variable {scope : Scope} {nodes : List Expr} {before mid after : Log}
  {name : String}

theorem Scope.Noted.mono (noted : scope.Noted nodes before)
    (used : before.used ⊆ after.used) (names : before.names ⊆ after.names) :
    scope.Noted nodes after := by
  intro name mentions
  obtain ⟨there, block⟩ := noted name mentions
  exact ⟨used there, fun abbreviates => names (block abbreviates)⟩

/-- A node that mentions nothing. -/
theorem Scope.Records.node (records : scope.Records nodes before after)
    {node : Expr} (silent : ∀ name, scope.Free name → .reference name ≠ node) :
    scope.Records (node :: nodes) before after :=
  { records with
    noted := by
      intro name ⟨member, free⟩
      rcases List.mem_cons.mp member with same | member
      · exact absurd same (silent name free)
      · exact records.noted name ⟨member, free⟩ }

/-- A name that needs no block any more. -/
theorem Scope.Records.use (records : scope.Records nodes before after)
    (listed : scope.Abbreviates name → name ∈ after.names) :
    scope.Records (.reference name :: nodes) before (after.use name) where
  used _ member := Log.mem_use.mpr (.inr (records.used member))
  names := records.names
  noted := by
    intro other ⟨member, free⟩
    rcases List.mem_cons.mp member with same | member
    · cases same
      exact ⟨Log.mem_use.mpr (.inl rfl), listed⟩
    · obtain ⟨there, block⟩ := records.noted other ⟨member, free⟩
      exact ⟨Log.mem_use.mpr (.inr there), block⟩
  closed closed other listed tree read :=
    (records.closed closed other listed tree read).mono
      (fun _ member => Log.mem_use.mpr (.inr member)) fun _ => id

/-- A sub-formula that gets its block now. -/
theorem Scope.Records.block (ascending : scope.table.Ascending)
    (records : scope.Records nodes before mid) {tree : Expr}
    (read : scope.Reads name tree)
    (inner : scope.Records tree.preorder ((mid.use name).noteRead name) after)
    (slot : UInt8) (block : List Instruction) :
    scope.Records (.reference name :: nodes) before
      (after.complete name slot block) where
  used _ member := inner.used (Log.mem_use.mpr (.inr (records.used member)))
  names _ member := List.mem_cons_of_mem _ (inner.names (records.names member))
  noted := by
    intro other ⟨member, free⟩
    rcases List.mem_cons.mp member with same | member
    · cases same
      exact ⟨inner.used (Log.mem_use.mpr (.inl rfl)), fun _ => .head _⟩
    · obtain ⟨there, listed⟩ := records.noted other ⟨member, free⟩
      exact ⟨inner.used (Log.mem_use.mpr (.inr there)), fun abbreviates =>
        List.mem_cons_of_mem _ (inner.names (listed abbreviates))⟩
  closed closed other listed tree' read' := by
    have later : scope.Noted tree'.preorder after := by
      rcases List.mem_cons.mp listed with rfl | listed
      · cases read.unique ascending read'
        exact inner.noted
      · refine inner.closed (fun name listed tree read => ?_) other listed tree' read'
        exact (records.closed closed name listed tree read).mono
          (fun _ member => Log.mem_use.mpr (.inr member)) fun _ => id
    exact later.mono (fun _ => id) fun _ => List.mem_cons_of_mem _

end

theorem Expr.preorderAll_append (es rest : List Expr) :
    Expr.preorderAll (es ++ rest) =
      Expr.preorderAll es ++ Expr.preorderAll rest := by
  induction es with
  | nil => rfl
  | cons e es ih =>
    rw [List.cons_append, preorderAll, ih, preorderAll, List.append_assoc]

/-- What is put out is noted. -/
theorem records_of_emits {scope : Scope} (sound : scope.table.Sound)
    {path : List String} {log log' : Log} {es : List Expr}
    {code : List Instruction} (emits : Emits scope path log es code log') :
    scope.Records (Expr.preorderAll es) log log' := by
  have ascending := sound.ascending
  induction emits with
  | nil =>
    exact ⟨fun _ => id, fun _ => id,
      fun _ mentions => absurd mentions.1 List.not_mem_nil, id⟩
  | constant value _ ih =>
    exact ih.node fun _ _ same => by cases same
  | parameter found _ ih =>
    refine ih.node fun name free same => ?_
    cases same
    rw [Scope.Free, found] at free
    cases free
  | undeclared free absent constant _ ih =>
    -- it abbreviates nothing, so it needs no block
    refine ih.use fun abbreviates => ?_
    obtain ⟨_, w, declares, kind, -⟩ := abbreviates
    cases (Scope.declares_of_find? ascending absent).unique ascending declares
    exact absurd kind constant
  | declared free found constant _ ih =>
    refine ih.use fun abbreviates => ?_
    obtain ⟨_, w, declares, kind, -⟩ := abbreviates
    cases (Scope.declares_of_find? ascending found).unique ascending declares
    exact absurd kind constant
  | shared free found kind outside has _ ih =>
    exact ih.use fun _ => Log.mem_of_lookup has
  | @block path log es code log' name v tree block log'' free found kind outside
      lacks read fits _ _ ih ihBlock =>
    have fresh := sound.fresh v (VariableTable.find?_some found).1
    have reads : scope.Reads name tree :=
      ⟨v.text, ⟨v, Scope.declares_of_find? ascending found, kind, rfl⟩,
        (Variable.tree_eq_ok_iff fresh).mp read⟩
    rw [Expr.preorderAll, Expr.preorderAll, List.append_nil] at ihBlock
    exact ih.block ascending reads ihBlock _ block
  | plus _ ih => exact ih.node fun _ _ same => by cases same
  | minus _ ih => exact ih.node fun _ _ same => by cases same
  | binary op _ ih =>
    rw [Expr.preorderAll, Expr.preorderAll, ← List.append_assoc] at ih
    exact ih.node fun _ _ same => by cases same
  | call resolved _ ih =>
    rw [Expr.preorderAll_append] at ih
    exact ih.node fun _ _ same => by cases same

/-- All that an expression uses is noted once its own names are, and those of
all blocks. -/
theorem Scope.Uses.mem_used {scope : Scope} {e : Expr} {log : Log}
    (noted : scope.Noted e.preorder log) (closed : log.Closed scope)
    {name : String} (uses : scope.Uses e name) : name ∈ log.used := by
  obtain ⟨tree, reach, mentions⟩ := uses
  have all : scope.Noted tree.preorder log := by
    clear mentions
    induction reach with
    | self => exact noted
    | @through outer tree inner _ mentioned read ih =>
      exact closed inner ((ih inner mentioned).2 read.abbreviates) tree read
  exact (all name mentions).1

/-- The names of a translation are those that the expression uses. -/
theorem mem_used_iff {table : VariableTable} (sound : table.Sound)
    {parameters : List String} {e : Expr} {t : Translation}
    (translated : (translate table parameters e).1 = .ok t) (name : String) :
    name ∈ t.used ↔ Scope.Uses ⟨parameters.map lower, table⟩ e name := by
  constructor
  · intro member
    rw [used_of_translate translated] at member
    exact (accurate_translationLog sound parameters e).uses name member
  · obtain ⟨-, log, main, emits, rfl⟩ := emits_of_translate translated
    have records := records_of_emits sound emits
    rw [Expr.preorderAll, Expr.preorderAll, List.append_nil] at records
    exact Scope.Uses.mem_used records.noted
      (records.closed fun _ member => absurd member List.not_mem_nil)

/-! ## What the table gets -/

namespace VariableTable

/-- A table has what another one has, and some names more, which say what they
say by themselves: the kind is that of the first letter, the value is zero and
the text is empty. -/
def Adds (after table : VariableTable) (names : List String) : Prop :=
  (after.entries.map Variable.told).Perm (table.entries.map Variable.told ++
    names.map fun name => (name, Declaration.implied name))

/-- Those of some names that a table lacks. -/
def missing (table : VariableTable) (names : Names) : List String :=
  names.filter fun name => (table.find? name).isNone

variable {table after : VariableTable}

theorem mem_missing {names : Names} {name : String} :
    name ∈ table.missing names ↔ name ∈ names ∧ table.find? name = none := by
  rw [missing, List.mem_filter, Option.isNone_iff_eq_none]

theorem Adds.refl (table : VariableTable) : table.Adds table [] := by
  rw [Adds, List.map_nil, List.append_nil]

/-- What was declared is declared as before. -/
theorem Adds.kept {names : List String} (adds : after.Adds table names)
    {v : Variable} (member : v ∈ table.entries) :
    ∃ w ∈ after.entries, w.told = v.told := by
  refine List.mem_map.mp (adds.mem_iff.mpr (List.mem_append_left _ ?_))
  exact List.mem_map_of_mem member

theorem mem_told (ascending : table.Ascending) {name : String}
    {d : Declaration} :
    (name, d) ∈ table.entries.map Variable.told ↔
      table.declaration? name = some d := by
  rw [declaration?, List.mem_map, Option.map_eq_some_iff]
  refine exists_congr fun v => ?_
  rw [find?_eq_some_iff ascending, Variable.told, Prod.mk.injEq, and_assoc]

theorem nodup_told (ascending : table.Ascending) :
    (table.entries.map Variable.told).Nodup := by
  refine List.pairwise_map.mpr (ascending.imp fun {v w} below same => ?_)
  have named : v.name = w.name := congrArg Prod.fst same
  rw [named] at below
  exact String.lt_irrefl _ below

/-- From a log, a table learns the names that it lacks. -/
theorem adds_learn (sound : table.Sound) {log : Log}
    (lowered : ∀ name ∈ log.used, lower name = name) (nodup : log.used.Nodup) :
    (table.learn log).Adds table (table.missing log.used) := by
  obtain ⟨sound', -⟩ := find?_learn sound lowered
  have apart : (table.entries.map Variable.told ++ (table.missing log.used).map
      fun name => (name, Declaration.implied name)).Nodup := by
    refine List.nodup_append.mpr ⟨nodup_told sound.ascending, ?_, ?_⟩
    · refine (nodup.filter _).map fun name name' same => congrArg Prod.fst same
    · rintro ⟨name, d⟩ old ⟨name', d'⟩ new same
      cases same
      obtain ⟨other, lacks, same⟩ := List.mem_map.mp new
      cases same
      have there := (mem_told sound.ascending).mp old
      rw [declaration?, (mem_missing.mp lacks).2] at there
      cases there
  refine (List.perm_ext_iff_of_nodup (nodup_told sound'.ascending) apart).mpr ?_
  rintro ⟨name, d⟩
  have new : (name, d) ∈ (table.missing log.used).map (fun name =>
      (name, Declaration.implied name)) ↔
        name ∈ table.missing log.used ∧ Declaration.implied name = d := by
    simp
  rw [mem_told sound'.ascending, declaration?_learn sound lowered,
    List.mem_append, mem_told sound.ascending, new, mem_missing, meaning,
    declaration?]
  cases table.find? name with
  | some v => simp
  | none => simp

end VariableTable

/-- Whether a translation succeeds or not, the table gets names that are used,
and nothing else changes. -/
theorem adds_translate {table : VariableTable} (sound : table.Sound)
    (parameters : List String) {e : Expr} (lowered : Lowered e.preorder) :
    let after := (translate table parameters e).2
    after.Sound ∧ ∃ names : Names, names.Nodup ∧
      (∀ name ∈ names, Scope.Uses ⟨parameters.map lower, table⟩ e name) ∧
      after.Adds table (table.missing names) ∧
      ∀ t, (translate table parameters e).1 = .ok t → t.used = names := by
  intro after
  have accurate := accurate_translationLog sound parameters e
  have folded := lowered_used parameters sound lowered
  have nodup : (translationLog table parameters e).used.Nodup := by
    refine accurate.ascending.imp fun {name other} below same => ?_
    rw [same] at below
    exact String.lt_irrefl _ below
  rcases translate_learns table parameters e with ⟨unchanged, failed⟩ | learned
  · have same : after = table := unchanged
    rw [same]
    exact ⟨sound, [], .nil, nofun, .refl table, fun t translated =>
      absurd translated (failed t)⟩
  · have same : after = table.learn (translationLog table parameters e) := learned
    rw [same]
    exact ⟨(VariableTable.find?_learn sound folded).1, _, nodup, accurate.uses,
      VariableTable.adds_learn sound folded nodup, fun t => used_of_translate⟩

/-! ## Formulas -/

/-- The names that a formula uses: those that occur in its text and stand for
no parameter, and those that do so in the text of a sub-formula it uses. -/
def Uses (formula : Formula) (name : String) : Prop :=
  ∃ e, parse formula.source = .ok (some e) ∧
    Scope.Uses ⟨formula.parameters.map lower, formula.table⟩ e name

/-- **Compiling notes exactly what is used, and only adds declarations.** The
names of a compiled formula are those that it uses, and its table gets those
of them that it lacks, each declared as what it says by itself. If the formula
cannot be compiled, the table gets some names that are used, and none at all if
the text is no expression. All that was declared before stays as it was. -/
theorem compile_used {formula : Formula} (sound : formula.table.Sound) :
    let table := formula.table
    let after := formula.compile.2.table
    (match formula.compile.1 with
      | .ok compiled =>
        (∀ name, name ∈ compiled.used ↔ formula.Uses name) ∧
        compiled.used.Nodup ∧ after.Adds table (table.missing compiled.used)
      | .error (.parse _) => after = table
      | .error (.compile _) =>
        ∃ names : Names, names.Nodup ∧ (∀ name ∈ names, formula.Uses name) ∧
          after.Adds table (table.missing names)) ∧
    (∀ reason, parse formula.source = .error reason →
      formula.compile = (.error (.parse reason), formula)) ∧
    (∀ v ∈ table.entries, ∃ w ∈ after.entries, w.told = v.told) ∧
    formula.compile.2 = { formula with table := after } ∧ after.Sound := by
  intro table after
  rcases read : parse formula.source with reason | _ | e
  · have failed : formula.compile = (.error (.parse reason), formula) := by
      rw [compile, read]
    have same : after = table := congrArg (·.2.table) failed
    rw [same, failed]
    refine ⟨rfl, fun other same => ?_, fun v member => ⟨v, member, rfl⟩, rfl, sound⟩
    cases same
    rfl
  · have blank : formula.compile = (.ok ⟨.constant Vec3.zero, []⟩, formula) := by
      rw [compile, read]
    have same : after = table := congrArg (·.2.table) blank
    rw [same, blank]
    refine ⟨⟨fun name => ?_, .nil, .refl table⟩, fun _ same => (by cases same),
      fun v member => ⟨v, member, rfl⟩, rfl, sound⟩
    refine iff_of_false List.not_mem_nil ?_
    rintro ⟨e, other, -⟩
    rw [read] at other
    cases other
  · obtain ⟨sound', names, nodup, uses, adds, used⟩ :=
      adds_translate sound formula.parameters (lowered_of_parse read)
    have own := compile_tree read
    have same : after = (translate table formula.parameters e).2 :=
      congrArg (·.2.table) own
    rw [← same] at sound' adds
    have uses (name : String) (member : name ∈ names) : formula.Uses name :=
      ⟨e, read, uses name member⟩
    refine ⟨?_, fun _ same => (by cases same), fun v => adds.kept, ?_, sound'⟩
    · cases made : formula.compile.1 with
      | error failure =>
        cases failure with
        | parse reason =>
          rw [own] at made
          exact absurd made (assemble_ne_parse reason)
        | compile reason => exact ⟨names, nodup, uses, adds⟩
      | ok compiled =>
        rw [own] at made
        obtain ⟨t, translated, equal⟩ := translated_of_assemble made
        have equal := equal.trans (used t translated)
        show (∀ name, name ∈ compiled.used ↔ _) ∧ _
        rw [equal]
        refine ⟨fun name => ⟨uses name, ?_⟩, nodup, adds⟩
        rintro ⟨e', other, uses⟩
        cases read.symm.trans other
        rw [← used t translated]
        exact (mem_used_iff sound translated name).mpr uses
    · rw [same, own]

/-- A name without a declaration is used and gets one, as a number because of its
first letter, and a sub-formula that is not named does not count. A name that has
to be a sub-formula has no text, so nothing is compiled, but it is declared. -/
theorem compile_used_undeclared :
    let number : Formula := { source := "f", table := .ofList [doubled] }
    let textless : Formula := { source := "s" }
    (∃ compiled, number.compile.1 = .ok compiled ∧ number.Uses "f" ∧
      ¬ number.Uses "s" ∧ number.compile.2.table.Adds number.table ["f"] ∧
      ("f", ⟨.float, Vec3.zero, ""⟩) ∈
        number.compile.2.table.entries.map Variable.told) ∧
    textless.compile.1 = .error (.compile (.emptySubFormula "s")) ∧
    (∃ names : Names, (∀ name ∈ names, textless.Uses name) ∧
      textless.compile.2.table.Adds textless.table (textless.table.missing names)) ∧
    ("s", ⟨.subFormula, Vec3.zero, ""⟩) ∈
      textless.compile.2.table.entries.map Variable.told := by
  intro number textless
  constructor
  · have absent : number.table.find? "f" = none :=
      (VariableTable.find?_eq_none_iff sound_doubled.ascending).mpr fun v member => by
        obtain rfl : v = doubled := List.mem_singleton.mp member
        decide +kernel
    have read : parse "f" = .ok (some (.reference "f")) := by
      with_unfolding_all rfl
    have constant : (number.table.meaning "f").kind ≠ .subFormula := by
      rw [VariableTable.meaning_of_not_find? absent]
      decide
    obtain ⟨program, compiled⟩ := @compile_constant number "f" sound_doubled
      (by decide) read rfl (by decide +kernel) constant
    have used := (@compile_used number sound_doubled).1
    rw [compiled] at used
    obtain ⟨names, -, adds⟩ := used
    have lacks : number.table.missing ["f"] = ["f"] := by
      rw [VariableTable.missing, List.filter_cons, absent]
      rfl
    rw [lacks] at adds
    refine ⟨_, compiled, (names "f").mp (.head _), fun uses => ?_, adds, ?_⟩
    · have same : "s" = "f" := List.mem_singleton.mp ((names "s").mpr uses)
      exact absurd same (by decide)
    · exact adds.mem_iff.mpr (List.mem_append_right _ (.head _))
  · have meaning : textless.table.meaning "s" = .implied "s" :=
      VariableTable.meaning_of_not_find? (VariableTable.find?_empty "s")
    have read : parse "s" = .ok (some (.reference "s")) := by
      with_unfolding_all rfl
    have lowered : lower "s" = "s" := by decide +kernel
    have failed := @compile_textless textless "s" VariableTable.sound_empty
      (by decide) read rfl lowered (meaning ▸ rfl) (meaning ▸ rfl)
    have used := (@compile_used textless VariableTable.sound_empty).1
    rw [failed] at used ⊢
    obtain ⟨names, -, uses, adds⟩ := used
    refine ⟨rfl, ⟨names, uses, adds⟩, ?_⟩
    have sound : (textless.table.findOrInsert "s").2.Sound :=
      VariableTable.sound_empty.findOrInsert lowered
    refine (VariableTable.mem_told sound.ascending).mpr ?_
    rw [VariableTable.declaration?,
      VariableTable.find?_findOrInsert VariableTable.sound_empty lowered, if_pos rfl,
      VariableTable.find?_empty]
    exact congrArg some (Variable.declaration_named lowered)

end FieldMesh.Formula
