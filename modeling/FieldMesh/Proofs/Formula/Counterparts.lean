import FieldMesh.Proofs.Formula.Edits
import FieldMesh.Proofs.Formula.Recompilation

/-!
# Formulas that say the same

Two formulas with different texts compile to the same if their texts stand for
the same trees and their tables declare the same names alike. Where a text
stands for nothing, what is told of the errors may differ; a function on errors
says how much of them counts.

* `Declarations.Alike`, `VariableTable.Alike`: the same names are declared, of
  the same kinds, with the same values, and with texts that say the same;
* `Emit.Mirrors`: two steps of translation that do the same to every log;
  `mirrors_emit` says this of whole expressions;
* **main result**: `Alike.compile`, compiling keeps formulas alike and gives
  the same.
-/

namespace FieldMesh.Formula

open FieldMesh.Program (Instruction)
open FieldMesh.Text

/-! ## Errors -/

/-- Changes what is told of an error of reading. -/
def CompileError.mapReason (blur : ParseError → ParseError) :
    CompileError → CompileError
  | .invalidSubFormula name reason => .invalidSubFormula name (blur reason)
  | e => e

/-- Changes what is told of an error of reading. -/
def FormulaError.mapReason (blur : ParseError → ParseError) :
    FormulaError → FormulaError
  | .parse reason => .parse (blur reason)
  | .compile e => .compile (e.mapReason blur)

theorem CompileError.mapReason_id : CompileError.mapReason id = id := by
  funext e
  cases e <;> rfl

theorem FormulaError.mapReason_id : FormulaError.mapReason id = id := by
  funext e
  cases e with
  | parse reason => rfl
  | compile e =>
    exact congrArg FormulaError.compile (congrFun CompileError.mapReason_id e)

/-- Results that are the same but for what is told of errors. -/
theorem cases_of_mapError_eq {ε ε' α : Type} {f : ε → ε'} {x y : Except ε α}
    (same : x.mapError f = y.mapError f) :
    (∃ e e', x = .error e ∧ y = .error e' ∧ f e = f e') ∨
      ∃ a, x = .ok a ∧ y = .ok a := by
  cases x with
  | error e =>
    cases y with
    | error e' => exact .inl ⟨e, e', rfl, rfl, Except.error.inj same⟩
    | ok b => cases same
  | ok a =>
    cases y with
    | error e' => cases same
    | ok b =>
      cases same
      exact .inr ⟨a, rfl, rfl⟩

variable (blur : ParseError → ParseError)

/-- Two texts stand for the same, or for errors of which the same counts. -/
def SayAlike (s t : String) : Prop :=
  (parse s).mapError blur = (parse t).mapError blur

/-! ## Tables -/

/-- The names in a table, in their order. -/
def VariableTable.names (table : VariableTable) : List String :=
  table.entries.map Variable.name

/-- Two declarations say the same. -/
structure Declaration.Alike (d d' : Declaration) : Prop where
  kind : d.kind = d'.kind
  value : d.value = d'.value
  text : SayAlike blur d.text d'.text

/-- Two maps declare the same names, and each alike. -/
def Declarations.Alike (m m' : Declarations) : Prop :=
  ∀ name, Option.Rel (Declaration.Alike blur) (m name) (m' name)

/-- Two tables say what two such maps say. -/
def VariableTable.Alike (table table' : VariableTable) : Prop :=
  ∃ m m', Represents table m ∧ Represents table' m' ∧ Declarations.Alike blur m m'

variable {blur} {m m' : Declarations}

theorem Declaration.Alike.refl (d : Declaration) : d.Alike blur d := ⟨rfl, rfl, rfl⟩

namespace Declarations

theorem alike_none : Alike blur (fun _ => none) fun _ => none := fun _ => .none

/-- A name is declared by neither map, or by both. -/
theorem Alike.cases (alike : Alike blur m m') (name : String) :
    m name = none ∧ m' name = none ∨
      ∃ d d', m name = some d ∧ m' name = some d' ∧ d.Alike blur d' := by
  have here := alike name
  generalize m name = d at here
  generalize m' name = d' at here
  cases here with
  | none => exact .inl ⟨rfl, rfl⟩
  | some same => exact .inr ⟨_, _, rfl, rfl, same⟩

theorem Alike.update (alike : Alike blur m m') (name : String)
    {d d' : Option Declaration} (same : Option.Rel (Declaration.Alike blur) d d') :
    Alike blur (Function.update m name d) (Function.update m' name d') := by
  intro other
  rw [Function.update_apply, Function.update_apply]
  split
  · exact same
  · exact alike other

theorem Alike.declare (alike : Alike blur m m') (name : String) :
    Alike blur (m.declare name) (m'.declare name) := by
  refine alike.update name (.some ?_)
  rcases alike.cases name with ⟨absent, absent'⟩ | ⟨d, d', here, here', same⟩
  · rw [absent, absent']
    exact .refl _
  · rwa [here, here']

theorem Alike.foldl_declare (alike : Alike blur m m') (names : Names) :
    Alike blur (names.foldl Declarations.declare m)
      (names.foldl Declarations.declare m') := by
  induction names generalizing m m' with
  | nil => exact alike
  | cons name rest ih => exact ih (alike.declare name)

theorem Alike.change (alike : Alike blur m m') (name : String)
    {f f' : Declaration → Declaration}
    (keeps : ∀ d d', d.Alike blur d' → (f d).Alike blur (f' d')) :
    Alike blur (m.change name f) (m'.change name f') := by
  refine alike.update name ?_
  rcases alike.cases name with ⟨absent, absent'⟩ | ⟨d, d', here, here', same⟩
  · rw [absent, absent']
    exact .none
  · rw [here, here']
    exact .some (keeps d d' same)

theorem Alike.retain (alike : Alike blur m m') (names : Names) :
    Alike blur (fun name => if name ∈ names then m name else none)
      fun name => if name ∈ names then m' name else none := by
  intro name
  simp only
  split
  · exact alike name
  · exact .none

end Declarations

namespace VariableTable.Alike

variable {table table' : VariableTable} (alike : table.Alike blur table')

include alike

/-- A name is found in neither table, or in both. -/
theorem cases (name : String) :
    table.find? name = none ∧ table'.find? name = none ∨
      ∃ v w, table.find? name = some v ∧ table'.find? name = some w ∧
        v.declaration.Alike blur w.declaration := by
  obtain ⟨m, m', first, second, same⟩ := alike
  have here := same.cases name
  simp only [← first.declares, ← second.declares, declaration?,
    Option.map_eq_none_iff, Option.map_eq_some_iff] at here
  rcases here with absent | ⟨_, _, ⟨v, found, rfl⟩, ⟨w, found', rfl⟩, same⟩
  · exact .inl absent
  · exact .inr ⟨v, w, found, found', same⟩

theorem sound : table.Sound ∧ table'.Sound := by
  obtain ⟨_, _, first, second, -⟩ := alike
  exact ⟨first.sound, second.sound⟩

/-- The names are the same, in the same order. -/
theorem names_eq : table.names = table'.names := by
  obtain ⟨m, m', first, second, same⟩ := alike
  have ascending {t : VariableTable} (sound : t.Sound) : t.names.Pairwise (· < ·) :=
    List.pairwise_map.mpr sound.ascending
  have mem {t : VariableTable} {m : Declarations} (represents : Represents t m)
      (name : String) : name ∈ t.names ↔ m name ≠ none := by
    rw [VariableTable.names, List.mem_map]
    exact represents.mem_names name
  refine (ascending first.sound).eq_of_mem_iff (ascending second.sound)
    fun name => ?_
  rw [mem first, mem second]
  rcases same.cases name with ⟨absent, absent'⟩ | ⟨d, d', here, here', -⟩
  · rw [absent, absent']
  · simp [here, here']

end VariableTable.Alike

/-! ## Steps -/

variable (blur) in
/-- Two steps do the same to every log, and they give the same, or errors of
which the same counts. -/
def Emit.Mirrors {α : Type} (x y : Emit α) : Prop :=
  ∀ log : Log, (x.run log).2 = (y.run log).2 ∧
    (x.run log).1.mapError (CompileError.mapReason blur) =
      (y.run log).1.mapError (CompileError.mapReason blur)

namespace Emit

variable {α β : Type}

theorem Mirrors.refl (x : Emit α) : Mirrors blur x x := fun _ => ⟨rfl, rfl⟩

theorem mirrors_lift {x y : Except CompileError α}
    (same : x.mapError (CompileError.mapReason blur) =
      y.mapError (CompileError.mapReason blur)) :
    Mirrors blur (liftM x : Emit α) (liftM y) := by
  have run (x : Except CompileError α) (log : Log) :
      (liftM x : Emit α).run log = (x, log) := by
    cases x <;> rfl
  intro log
  rw [run, run]
  exact ⟨rfl, same⟩

theorem Mirrors.bind {x y : Emit β} {f g : β → Emit α} (first : Mirrors blur x y)
    (rest : ∀ b, Mirrors blur (f b) (g b)) :
    Mirrors blur (x >>= f) (y >>= g) := by
  intro log
  obtain ⟨logs, results⟩ := first log
  rw [run_bind, run_bind]
  generalize x.run log = ran at logs results
  generalize y.run log = ran' at logs results
  obtain ⟨result, mid⟩ := ran
  obtain ⟨result', mid'⟩ := ran'
  cases logs
  rcases cases_of_mapError_eq results with ⟨e, e', rfl, rfl, told⟩ | ⟨b, rfl, rfl⟩
  · exact ⟨rfl, congrArg Except.error told⟩
  · exact rest b mid

end Emit

/-! ## Names -/

section

variable {d d' : Declaration} (alike : d.Alike blur d')

include alike

theorem Declaration.Alike.constant : d.constant = d'.constant := by
  rw [Declaration.constant, Declaration.constant, alike.kind, alike.value]

theorem Declaration.Alike.tree (name : String) :
    (d.tree name).mapError (CompileError.mapReason blur) =
      (d'.tree name).mapError (CompileError.mapReason blur) := by
  unfold Declaration.tree
  rcases cases_of_mapError_eq alike.text with ⟨reason, reason', read, read', told⟩ |
    ⟨tree, read, read'⟩
  · rw [read, read']
    show Except.error (CompileError.invalidSubFormula name (blur reason)) =
      Except.error (CompileError.invalidSubFormula name (blur reason'))
    rw [told]
  · rw [read, read']

/-- The same is put out for what is declared alike. -/
theorem mirrors_refer {path : List String} {name : String}
    {block block' : Expr → Emit (List Instruction)}
    (blocks : ¬ path.contains name = true →
      ∀ tree, Emit.Mirrors blur (block tree) (block' tree)) :
    Emit.Mirrors blur (refer d path name block) (refer d' path name block') := by
  unfold refer
  rw [← alike.kind, ← alike.constant]
  split
  · exact .refl _
  split
  · exact .refl _
  next outside =>
  refine .bind (.refl _) fun seen => ?_
  split
  · exact .refl _
  refine .bind (Emit.mirrors_lift (alike.tree name)) fun tree => ?_
  refine .bind (.refl _) fun _ => ?_
  exact .bind (blocks outside tree) fun block => .refl _

end

/-! ## Expressions -/

/-- Expressions are put out alike under tables that say the same. -/
theorem mirrors_emit (scope scope' : Scope)
    (same : scope'.parameters = scope.parameters)
    (alike : scope.table.Alike blur scope'.table) :
    (∀ path e, Emit.Mirrors blur (emit scope path e) (emit scope' path e)) ∧
    (∀ path es, Emit.Mirrors blur (emitAll scope path es) (emitAll scope' path es)) := by
  obtain ⟨sound, sound'⟩ := alike.sound
  apply emit.mutual_induct scope
  case case1 =>
    intro path value
    rw [emit, emit]
    exact .refl _
  case case2 =>
    intro path name index found
    rw [emit, emit, same, found]
    exact .refl _
  case case3 =>
    intro path name free nested log
    have free' : scope'.Free name := by rwa [Scope.Free, same]
    -- both tables declare the name, or neither does and its kind is implied
    rcases alike.cases name with ⟨absent, absent'⟩ | ⟨v, w, found, found', declared⟩
    · rw [run_emit_undeclared free absent, run_emit_undeclared free' absent']
      exact ⟨rfl, rfl⟩
    · rw [run_emit_declared sound free found, run_emit_declared sound' free' found']
      exact mirrors_refer declared (fun outside => nested v found outside) (log.use name)
  case case4 =>
    intro path op operand ih
    rw [emit, emit]
    exact .bind ih fun code => .refl _
  case case5 =>
    intro path op left right ihRight ihLeft
    rw [emit, emit]
    exact .bind ihRight fun _ => .bind ihLeft fun _ => .refl _
  case case6 =>
    intro path function arguments ih
    rw [emit, emit]
    exact .bind (.refl _) fun _ => .bind ih fun _ => .refl _
  case case7 =>
    intro path
    rw [emitAll, emitAll]
    exact .refl _
  case case8 =>
    intro path e rest ihRest ih
    rw [emitAll, emitAll]
    exact .bind ihRest fun _ => .bind ih fun _ => .refl _

/-- A translation goes alike, and comes across the same names. -/
theorem translate_alike {table table' : VariableTable}
    (alike : table.Alike blur table') {parameters parameters' : List String}
    (same : parameters.map lower = parameters'.map lower) (e : Expr) :
    (translate table parameters e).1.mapError (CompileError.mapReason blur) =
        (translate table' parameters' e).1.mapError (CompileError.mapReason blur) ∧
      namesMet table parameters e = namesMet table' parameters' e := by
  have count : parameters.length = parameters'.length := by
    simpa using congrArg List.length same
  obtain ⟨logs, results⟩ :=
    (mirrors_emit ⟨parameters.map lower, table⟩ ⟨parameters'.map lower, table'⟩
      same.symm alike).1 [] e {}
  unfold translate namesMet translationLog
  -- too many parameters are too many in both lists
  rw [count]
  split
  · exact ⟨rfl, rfl⟩
  simp only
  generalize (emit _ [] e).run {} = ran at logs results ⊢
  generalize (emit _ [] e).run {} = ran' at logs results ⊢
  obtain ⟨result, log⟩ := ran
  obtain ⟨result', log'⟩ := ran'
  cases logs
  refine ⟨?_, rfl⟩
  rcases cases_of_mapError_eq results with ⟨e, e', rfl, rfl, told⟩ | ⟨main, rfl, rfl⟩
  · exact congrArg Except.error told
  · rfl

/-- What a translation declares, it declares in both tables. -/
theorem VariableTable.Alike.translate {table table' : VariableTable}
    (alike : table.Alike blur table') {parameters parameters' : List String}
    (same : parameters.map lower = parameters'.map lower) {e : Expr}
    (lowered : Lowered e.preorder) :
    (Formula.translate table parameters e).2.Alike blur
      (Formula.translate table' parameters' e).2 := by
  have names := (translate_alike alike same e).2
  obtain ⟨m, m', first, second, declared⟩ := alike
  refine ⟨_, _, first.translate parameters lowered,
    second.translate parameters' lowered, ?_⟩
  rw [names]
  exact declared.foldl_declare _

/-! ## Formulas -/

variable (blur) in
/-- Two formulas say the same. -/
structure Alike (formula formula' : Formula) : Prop where
  source : SayAlike blur formula.source formula'.source
  parameters : formula.parameters.map lower = formula'.parameters.map lower
  table : formula.table.Alike blur formula'.table

theorem assemble_alike {result result' : Except CompileError Translation}
    (same : result.mapError (CompileError.mapReason blur) =
      result'.mapError (CompileError.mapReason blur)) :
    (assemble result).mapError (FormulaError.mapReason blur) =
      (assemble result').mapError (FormulaError.mapReason blur) := by
  rcases cases_of_mapError_eq same with ⟨e, e', rfl, rfl, told⟩ | ⟨t, rfl, rfl⟩
  · exact congrArg (fun told => Except.error (FormulaError.compile told)) told
  · rfl

/-- **Compiling.** Formulas that say the same have the same program and use the
same names, or they have the same error, as far as it counts; and afterwards
they say the same again. -/
theorem Alike.compile {formula formula' : Formula}
    (alike : Alike blur formula formula') :
    formula.compile.1.mapError (FormulaError.mapReason blur) =
        formula'.compile.1.mapError (FormulaError.mapReason blur) ∧
      Alike blur formula.compile.2 formula'.compile.2 := by
  rcases cases_of_mapError_eq alike.source with
    ⟨reason, reason', read, read', told⟩ | ⟨_ | e, read, read'⟩
  · unfold Formula.compile
    rw [read, read']
    refine ⟨?_, alike⟩
    exact congrArg (fun told => Except.error (FormulaError.parse told)) told
  · unfold Formula.compile
    rw [read, read']
    exact ⟨rfl, alike⟩
  · rw [compile_tree read, compile_tree read']
    have results := (translate_alike alike.table alike.parameters e).1
    refine ⟨assemble_alike results, alike.source, alike.parameters, ?_⟩
    exact alike.table.translate alike.parameters (lowered_of_parse read)

end FieldMesh.Formula
