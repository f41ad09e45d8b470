import FieldMesh.Formula.Basic
import FieldMesh.Proofs.Formula.Compilation
import FieldMesh.Proofs.Formula.Retranslation

/-!
# Compiling again

What a formula compiles to depends on the variables it uses, and on nothing
else in its table. A table that has been compiled with declares all that was
used and keeps all trees that were read, so compiling again finds everything
in place.

* `VariableTable.find?_learn`: the table that a translation leaves;
* `VariableTable.Settled`: nothing is left to be learned from a log;
* **main result**: `compile_footprint`.
-/

namespace FieldMesh.Formula

open FieldMesh.Program (Instruction)
open FieldMesh.Text

/-! ## What is learned -/

theorem Variable.keepTree_keepTree (v : Variable) :
    v.keepTree.keepTree = v.keepTree := by
  cases read : v.tree with
  | error reason =>
    have unchanged : v.keepTree = v := by rw [keepTree, read]
    rw [unchanged, unchanged]
  | ok tree =>
    have kept : v.keepTree = { v with kept := some tree } := by rw [keepTree, read]
    rw [kept]
    rfl

namespace VariableTable

variable {table : VariableTable}

theorem find?_findOrInsert (sound : table.Sound) {name : String}
    (lowered : lower name = name) (other : String) :
    (table.findOrInsert name).2.find? other =
      if other = name then some ((table.find? name).getD (.named name))
      else table.find? other :=
  (findOrInsert_eq sound lowered).2.1 other

/-- All names that are asked for are there in the end. -/
theorem find?_declare (names : Names) (sound : table.Sound)
    (lowered : ∀ name ∈ names, lower name = name) :
    let declared := names.foldl (fun t name => (t.findOrInsert name).2) table
    declared.Sound ∧ ∀ other, declared.find? other =
      if other ∈ names then some ((table.find? other).getD (.named other))
      else table.find? other := by
  induction names generalizing table with
  | nil => exact ⟨sound, fun other => (if_neg List.not_mem_nil).symm⟩
  | cons name rest ih =>
    obtain ⟨first, others⟩ := List.forall_mem_cons.mp lowered
    obtain ⟨sound', found⟩ := ih (sound.findOrInsert first) others
    refine ⟨sound', fun other => (found other).trans ?_⟩
    rw [find?_findOrInsert sound first]
    by_cases here : other = name
    · subst here
      simp
    · simp [here]

/-- All trees that were read are kept in the end. -/
theorem find?_keepTrees (names : List String) (sound : table.Sound) :
    let kept := names.foldl keepTree table
    kept.Sound ∧ ∀ other, kept.find? other =
      if other ∈ names then (table.find? other).map Variable.keepTree
      else table.find? other := by
  induction names generalizing table with
  | nil => exact ⟨sound, fun other => (if_neg List.not_mem_nil).symm⟩
  | cons name rest ih =>
    obtain ⟨sound', found⟩ := ih (sound.keepTree name)
    refine ⟨sound', fun other => (found other).trans ?_⟩
    rw [find?_keepTree sound.ascending]
    by_cases here : other = name
    · subst here
      simp [Function.comp_def, Variable.keepTree_keepTree]
    · simp [here]

/-- The table that a translation leaves: names that came up are declared, and
trees that were read are kept. -/
theorem find?_learn (sound : table.Sound) {log : Log}
    (lowered : ∀ name ∈ log.used, lower name = name) :
    (table.learn log).Sound ∧ ∀ other, (table.learn log).find? other =
      let declared :=
        if other ∈ log.used then some ((table.find? other).getD (.named other))
        else table.find? other
      if other ∈ log.read then declared.map Variable.keepTree else declared := by
  obtain ⟨sound, declared⟩ := find?_declare log.used sound lowered
  obtain ⟨sound, kept⟩ := find?_keepTrees log.read sound
  refine ⟨sound, fun other => (kept other).trans ?_⟩
  rw [declared]

/-- What a name that came up stood for is declared, and nothing else is. -/
theorem declaration?_learn (sound : table.Sound) {log : Log}
    (lowered : ∀ name ∈ log.used, lower name = name) (name : String) :
    (table.learn log).declaration? name =
      if name ∈ log.used then some (table.meaning name)
      else table.declaration? name := by
  have kept (found : Option Variable) :
      (if name ∈ log.read then found.map Variable.keepTree else found).map
        Variable.declaration = found.map Variable.declaration := by
    split
    · rw [Option.map_map]
      exact congrArg (Option.map · found) (funext Variable.declaration_keepTree)
    · rfl
  rw [declaration?, (find?_learn sound lowered).2, kept]
  split
  · next used =>
    rw [meaning, declaration?]
    cases table.find? name with
    | none => exact congrArg some (Variable.declaration_named (lowered name used))
    | some v => rfl
  · rfl

/-- What is learned changes no meaning. -/
theorem meaning_learn (sound : table.Sound) {log : Log}
    (lowered : ∀ name ∈ log.used, lower name = name) (name : String) :
    (table.learn log).meaning name = table.meaning name := by
  rw [meaning, declaration?_learn sound lowered]
  split <;> rfl

/-! ## Nothing left to learn -/

/-- All that came up is declared, and all trees that were read are kept. -/
structure Settled (table : VariableTable) (log : Log) : Prop where
  declared : ∀ name ∈ log.used, table.find? name ≠ none
  kept : ∀ name ∈ log.read, ∀ v, table.find? name = some v → v.keepTree = v

theorem settled_learn (sound : table.Sound) {log : Log}
    (lowered : ∀ name ∈ log.used, lower name = name) :
    (table.learn log).Settled log := by
  have found := (find?_learn sound lowered).2
  refine ⟨fun name used => ?_, fun name read v there => ?_⟩
  · rw [found]
    simp only [used, if_true]
    split <;> nofun
  · rw [found] at there
    simp only [read, if_true] at there
    obtain ⟨w, -, rfl⟩ := Option.map_eq_some_iff.mp there
    exact w.keepTree_keepTree

/-- Other variables can be dropped. -/
theorem Settled.retain (sound : table.Sound) {log : Log}
    (settled : table.Settled log) : (table.retain log.used).Settled log := by
  refine ⟨fun name used => ?_, fun name read v there => ?_⟩
  · rw [find?_retain sound, if_pos used]
    exact settled.declared name used
  · rw [find?_retain sound] at there
    split at there
    · exact settled.kept name read v there
    · cases there

theorem keepTree_eq_self {name : String}
    (kept : ∀ v, table.find? name = some v → v.keepTree = v) :
    table.keepTree name = table := by
  unfold keepTree
  split
  · next i search =>
    obtain ⟨v, found, entry, -⟩ := find?_of_found search
    have same : table.entries.modify i Variable.keepTree = table.entries := by
      rw [List.modify_eq_set_getElem?, entry]
      show table.entries.set i v.keepTree = table.entries
      obtain ⟨inside, rfl⟩ := List.getElem?_eq_some_iff.mp entry
      rw [kept _ found, List.set_getElem_self]
    rw [same]
  · rfl

/-- A settled table learns nothing. -/
theorem Settled.learn_eq_self (sound : table.Sound) {log : Log}
    (settled : table.Settled log) (lowered : ∀ name ∈ log.used, lower name = name) :
    table.learn log = table := by
  have declare : ∀ names : Names, names ⊆ log.used →
      names.foldl (fun t name => (t.findOrInsert name).2) table = table := by
    intro names
    induction names with
    | nil => exact fun _ => rfl
    | cons name rest ih =>
      intro subset
      obtain ⟨first, others⟩ := List.cons_subset.mp subset
      have unchanged : (table.findOrInsert name).2 = table :=
        (findOrInsert_eq sound (lowered name first)).2.2
          (settled.declared name first)
      rw [List.foldl_cons, unchanged]
      exact ih others
  have keep : ∀ names : List String, names ⊆ log.read →
      names.foldl keepTree table = table := by
    intro names
    induction names with
    | nil => exact fun _ => rfl
    | cons name rest ih =>
      intro subset
      obtain ⟨first, others⟩ := List.cons_subset.mp subset
      rw [List.foldl_cons, keepTree_eq_self (settled.kept name first)]
      exact ih others
  unfold learn
  rw [declare log.used (fun _ => id)]
  exact keep log.read fun _ => id

end VariableTable

/-! ## Translating again -/

section

variable {table other : VariableTable} {parameters : List String} {e : Expr}

/-- A translation that goes beyond the parameters learns from its log. -/
theorem translate_learns (table : VariableTable) (parameters : List String)
    (e : Expr) :
    (translate table parameters e).2 = table ∧
        (∀ t, (translate table parameters e).1 ≠ .ok t) ∨
      (translate table parameters e).2 =
        table.learn (translationLog table parameters e) := by
  unfold translate
  split
  · exact .inl ⟨rfl, nofun⟩
  · exact .inr rfl

/-- The names of a translation are those of its log. -/
theorem used_of_translate {t : Translation}
    (translated : (translate table parameters e).1 = .ok t) :
    t.used = (translationLog table parameters e).used := by
  unfold translate at translated
  split at translated
  · cases translated
  · simp only at translated
    unfold translationLog
    cases run : (emit ⟨parameters.map lower, table⟩ [] e).run {} with
    | mk result log =>
      rw [run] at translated
      cases result with
      | error failure => cases translated
      | ok main =>
        cases translated
        rfl

/-- Under a table that says the same of the names that come up, a translation
goes alike, and the other table learns from the same log. -/
theorem translate_congr (sound : table.Sound) (sound' : other.Sound)
    (lowered : Lowered e.preorder)
    (agree : ∀ name ∈ (translationLog table parameters e).used,
      other.meaning name = table.meaning name) :
    (translate other parameters e).1 = (translate table parameters e).1 ∧
      translationLog other parameters e = translationLog table parameters e := by
  have retraces := retraces_emit ⟨parameters.map lower, table⟩
    ⟨parameters.map lower, other⟩ sound sound' rfl
  have same := (retraces.1 [] e lowered {} (.start _)).same agree
  refine ⟨?_, congrArg Prod.snd same⟩
  unfold translate
  split
  · rfl
  · simp only [same]
    rfl

/-- If nothing is left to learn, the other table stays as it is. -/
theorem translate_settled (sound : table.Sound) (sound' : other.Sound)
    (lowered : Lowered e.preorder)
    (agree : ∀ name ∈ (translationLog table parameters e).used,
      other.meaning name = table.meaning name)
    (settled : other.Settled (translationLog table parameters e)) :
    translate other parameters e = ((translate table parameters e).1, other) := by
  obtain ⟨result, log⟩ := translate_congr sound sound' lowered agree
  refine Prod.ext result ?_
  rcases translate_learns other parameters e with ⟨unchanged, -⟩ | learned
  · exact unchanged
  · rw [learned, log]
    exact settled.learn_eq_self sound' (lowered_used _ sound lowered)

end

/-! ## Compiling again -/

/-- What a translation compiles to. -/
def assemble (result : Except CompileError Translation) :
    Except FormulaError Compiled :=
  Except.mapError .compile do
    let translation ← result
    return { program := ← translation.program, used := translation.used }

theorem compile_tree {formula : Formula} {e : Expr}
    (read : parse formula.source = .ok (some e)) :
    formula.compile =
      (assemble (translate formula.table formula.parameters e).1,
        { formula with
          table := (translate formula.table formula.parameters e).2 }) := by
  unfold compile
  rw [read]
  rfl

theorem translated_of_assemble {result : Except CompileError Translation}
    {compiled : Compiled} (assembled : assemble result = .ok compiled) :
    ∃ translation, result = .ok translation ∧ compiled.used = translation.used := by
  cases result with
  | error reason => cases assembled
  | ok translation =>
    refine ⟨translation, rfl, ?_⟩
    cases made : translation.program with
    | error reason =>
      simp only [assemble, bind, Except.bind, made] at assembled
      cases assembled
    | ok program =>
      simp only [assemble, bind, Except.bind, made] at assembled
      cases assembled
      rfl

theorem assemble_ne_parse {result : Except CompileError Translation}
    (reason : ParseError) : assemble result ≠ .error (.parse reason) := by
  have renamed (x : Except CompileError Compiled) :
      x.mapError FormulaError.compile ≠ .error (.parse reason) := by
    cases x <;> nofun
  exact renamed _

section

variable {formula : Formula} {name : String}

/-- A text that is one name, which stands for a constant. -/
theorem compile_constant (sound : formula.table.Sound)
    (few : formula.parameters.length ≤ 256)
    (read : parse formula.source = .ok (some (.reference name)))
    (free : Scope.Free ⟨formula.parameters.map lower, formula.table⟩ name)
    (lowered : lower name = name)
    (constant : (formula.table.meaning name).kind ≠ .subFormula) :
    ∃ program, formula.compile.1 = .ok ⟨program, [name]⟩ := by
  let code := [Instruction.const (formula.table.meaning name).constant]
  have run : (emit ⟨formula.parameters.map lower, formula.table⟩ []
      (.reference name)).run {} = (.ok code, Log.use {} name) := by
    rw [run_emit_reference sound free lowered (.start _), refer, if_pos constant]
    rfl
  have translated : (translate formula.table formula.parameters
      (.reference name)).1 = .ok ⟨code, 0, [name]⟩ := by
    unfold translate
    rw [if_neg (Nat.not_lt.mpr few)]
    simp only [run]
    rfl
  obtain ⟨program, made, -⟩ := program_of_translate sound translated
  refine ⟨program, ?_⟩
  rw [compile_tree read, translated]
  simp only [assemble, bind, Except.bind, made]
  rfl

/-- A text that is one name, which stands for a sub-formula without a text. The
name is declared all the same. -/
theorem compile_textless (sound : formula.table.Sound)
    (few : formula.parameters.length ≤ 256)
    (read : parse formula.source = .ok (some (.reference name)))
    (free : Scope.Free ⟨formula.parameters.map lower, formula.table⟩ name)
    (lowered : lower name = name)
    (kind : (formula.table.meaning name).kind = .subFormula)
    (text : (formula.table.meaning name).text = "") :
    formula.compile = (.error (.compile (.emptySubFormula name)),
      { formula with table := (formula.table.findOrInsert name).2 }) := by
  have tree : (formula.table.meaning name).tree name =
      .error (.emptySubFormula name) := by
    have empty : parse "" = .ok none := by with_unfolding_all rfl
    rw [Declaration.tree, text, empty]
  have run : (emit ⟨formula.parameters.map lower, formula.table⟩ []
      (.reference name)).run {} =
        (.error (.emptySubFormula name), Log.use {} name) := by
    rw [run_emit_reference sound free lowered (.start _), refer, tree,
      if_neg (not_not_intro kind)]
    rfl
  have translated : translate formula.table formula.parameters (.reference name) =
      (.error (.emptySubFormula name), (formula.table.findOrInsert name).2) := by
    unfold translate
    rw [if_neg (Nat.not_lt.mpr few)]
    simp only [run]
    rfl
  rw [compile_tree read, translated]
  rfl

end

/-- **Compiling depends on the used variables only.** What a formula compiles
to is what it compiles to under every table that says the same of the used
names, with the same instructions, the same blocks and the same names. Whether
it compiles or not, compiling again with the table that is left gives the same
result and leaves that table as it is, and this is so, if it compiles, after
all unused variables have been dropped. -/
theorem compile_footprint {formula : Formula} (sound : formula.table.Sound) :
    formula.compile.2.compile = formula.compile ∧
    ∀ compiled, formula.compile.1 = .ok compiled →
      (∀ other : VariableTable, other.Sound →
        (∀ name ∈ compiled.used,
          other.meaning name = formula.table.meaning name) →
        { formula with table := other }.compile.1 = .ok compiled ∧
        ∀ e, parse formula.source = .ok (some e) →
          (translate other formula.parameters e).1 =
            (translate formula.table formula.parameters e).1) ∧
      (formula.compile.2.prune compiled.used).compile =
        (.ok compiled, formula.compile.2.prune compiled.used) := by
  rcases read : parse formula.source with reason | _ | e
  · have failed : formula.compile = (.error (.parse reason), formula) := by
      rw [compile, read]
    rw [failed]
    exact ⟨failed, nofun⟩
  · have blank (other : VariableTable) : { formula with table := other }.compile =
        (.ok ⟨.constant Vec3.zero, []⟩, { formula with table := other }) := by
      simp only [compile, read]
    have own : formula.compile = _ := blank formula.table
    rw [own]
    refine ⟨own, fun compiled same => ?_⟩
    cases same
    exact ⟨fun other _ _ => ⟨congrArg Prod.fst (blank other), nofun⟩, blank _⟩
  · have lowered := lowered_of_parse read
    have folded := lowered_used formula.parameters sound lowered
    have anew (other : VariableTable) : { formula with table := other }.compile =
        (assemble (translate other formula.parameters e).1,
          { formula with table := (translate other formula.parameters e).2 }) :=
      @compile_tree { formula with table := other } e read
    have own := compile_tree read
    obtain ⟨sound', -⟩ := VariableTable.find?_learn sound folded
    have meaning := VariableTable.meaning_learn sound folded
    have settled := VariableTable.settled_learn sound folded
    refine ⟨?_, fun compiled made => ?_⟩
    · rcases translate_learns formula.table formula.parameters e with
        ⟨unchanged, -⟩ | learned
      · rw [own, unchanged]
        exact own.trans (by rw [unchanged])
      · rw [own, anew, learned, translate_settled sound sound' lowered
          (fun name _ => meaning name) settled]
    · rw [own] at made
      obtain ⟨t, translated, used⟩ := translated_of_assemble made
      have names := used.trans (used_of_translate translated)
      have learned := (translate_learns formula.table formula.parameters e)
        |>.resolve_left fun failed => failed.2 t translated
      rw [own, learned, names]
      refine ⟨fun other sound' agree => ?_, ?_⟩
      · have same := (translate_congr sound sound' lowered agree).1
        rw [anew, same]
        refine ⟨made, fun e' read' => ?_⟩
        cases read'
        exact same
      · have kept := sound'.retain
          (translationLog formula.table formula.parameters e).used
        rw [prune, anew, translate_settled sound kept lowered ?_
          (settled.retain sound')]
        · exact congrArg (·, _) made
        · intro name member
          rw [← meaning, VariableTable.meaning, VariableTable.declaration?,
            VariableTable.find?_retain sound', if_pos member]
          rfl

/-- A variable that neither the text nor the text of a sub-formula names changes
nothing. The text names a sub-formula and a parameter, and that of the sub-formula
the same parameter. -/
theorem compile_footprint_unused :
    let formula : Formula :=
      { source := "s * s - a", parameters := ["A"], table := .ofList [doubled] }
    let more := VariableTable.ofList [.float "b" 1.0, doubled]
    ∃ compiled, formula.compile.1 = .ok compiled ∧ compiled.used = ["s"] ∧
      { formula with table := more }.compile.1 = .ok compiled ∧
      (formula.compile.2.prune compiled.used).compile =
        (.ok compiled, formula.compile.2.prune compiled.used) := by
  intro formula more
  have read : parse "s * s - a" = .ok (some (.binary .sub
      (.binary .mul (.reference "s") (.reference "s")) (.reference "a"))) := by
    with_unfolding_all rfl
  obtain ⟨program, made, -⟩ := program_of_translate sound_doubled translate_doubled
  have compiled : formula.compile.1 = .ok ⟨program, ["s"]⟩ := by
    rw [@compile_tree formula _ read, translate_doubled]
    simp only [assemble, bind, Except.bind, made]
    rfl
  have sound : more.Sound := VariableTable.sound_ofList fun v member => by
    rcases List.mem_pair.mp member with rfl | rfl <;> nofun
  have agree : more.meaning "s" = formula.table.meaning "s" := by decide +kernel
  obtain ⟨same, pruned⟩ := (@compile_footprint formula sound_doubled).2 _ compiled
  refine ⟨_, compiled, rfl, (same more sound fun name member => ?_).1, pruned⟩
  cases List.mem_singleton.mp member
  exact agree

end FieldMesh.Formula
