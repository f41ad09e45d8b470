import Mathlib.Data.List.InsertIdx
import FieldMesh.Proofs.Formula.Edits
import FieldMesh.Proofs.Formula.Recompilation
import FieldMesh.Proofs.Lists

/-!
# Kept trees are never stale

Variables are made, read, copied, changed, put into tables, moved within them
and taken out again, and wherever they are, a tree may be kept in them. Here
is a desk with any number of tables and of variables beside them. Whatever is
done on it, asking a variable for its tree gives what reading its text would
give.

* `parse_eq_none_iff`: only blank text stands for no expression;
* `VariableTable.Current`: every kept tree of a table is what its text says.
  Nothing else is known of the table: its names may be in any order;
* `TableStep`, `DeskStep`: what is done to a table and on a desk;
* `Desk.Current.apply`: every step keeps the trees current;
* **main result**: `trees_current`.
-/

namespace FieldMesh.Formula

open FieldMesh.Text

/-! ## Blank texts -/

theorem lexFrom_ne_nil {text : List Char} (filled : text ≠ []) (offset stop : Nat) :
    lexFrom [] offset text ≠ ⟨[], .ok stop⟩ := by
  obtain ⟨c, rest, rfl⟩ := List.exists_cons_of_ne_nil filled
  rw [lexFrom]
  split
  · intro same
    cases same
  · rw [lexFrom_done]
    intro same
    cases same

theorem trim_eq_nil_iff {text : List Char} :
    trim text = [] ↔ ∀ c ∈ text, isBlank c = true := by
  rw [trim, List.reverse_eq_nil_iff, dropBlanks, List.dropWhile_eq_nil_iff]
  constructor
  · intro behind c member
    rw [← List.takeWhile_append_dropWhile (p := isBlank) (l := text)] at member
    rcases List.mem_append.mp member with front | back
    · exact List.mem_takeWhile_imp front
    · exact behind c (List.mem_reverse.mpr back)
  · intro blank c member
    refine blank c ((List.dropWhile_sublist isBlank).subset ?_)
    exact List.mem_reverse.mp member

/-- Blank texts, and no others, stand for no expression. -/
theorem parse_eq_none_iff {text : String} :
    parse text = .ok none ↔ ∀ c ∈ text.toList, isBlank c = true := by
  refine ⟨fun noTree => ?_, parse_blank⟩
  rw [← trim_eq_nil_iff]
  by_contra filled
  unfold parse at noTree
  split at noTree
  · next stop nothing => exact lexFrom_ne_nil filled 0 stop nothing
  · cases ran : Parser.run _ _ _ with
    | error reason =>
      rw [ran] at noTree
      cases noTree
    | ok tree =>
      rw [ran] at noTree
      cases noTree

/-! ## Tables -/

/-- What is done to a variable, in a table or beside it. -/
inductive VariableChange where
  | kind (kind : VariableKind)
  | value (value : Vec3)
  | text (text : String)
  /-- Asks for the tree, which is kept from then on if there is one. -/
  | tree

def VariableChange.apply (v : Variable) : VariableChange → Variable
  | .kind k => { v with kind := k }
  | .value x => { v with value := x }
  | .text t => v.setText t
  | .tree => v.keepTree

/-- What is done to one table, without other variables. -/
inductive TableStep where
  /-- Changes the variable of a name, if there is one. -/
  | change (name : String) (change : VariableChange)
  | find (name : String)
  | retain (names : Names)
  /-- Replaces the table by that of a document, if it is one of a table. -/
  | load (text : String)
  /-- Replaces it by that in the document of a formula. -/
  | openFormula (text : String)
  | translate (parameters : List String) (e : Expr)
  /-- Compiles a text with the variables of the table. -/
  | compile (source : String) (parameters : List String)

def TableStep.apply (table : VariableTable) : TableStep → VariableTable
  | .change name c => (table.modify? name (c.apply ·)).getD table
  | .find name => (table.findOrInsert name).2
  | .retain names => table.retain names
  | .load text => ((Json.read? text).bind VariableTable.ofJson?).getD table
  | .openFormula text => ((ofText? text).map Formula.table).getD table
  | .translate parameters e => (Formula.translate table parameters e).2
  | .compile source parameters =>
    (Formula.compile { source, parameters, table }).2.table

/-- Every tree that is kept is what the text says. -/
def VariableTable.Current (table : VariableTable) : Prop :=
  ∀ v ∈ table.entries, v.Fresh

theorem VariableChange.fresh_apply {v : Variable} (fresh : v.Fresh)
    (change : VariableChange) : (change.apply v).Fresh := by
  cases change with
  | kind kind => exact fun tree kept => fresh tree kept
  | value value => exact fun tree kept => fresh tree kept
  | text text => exact Variable.fresh_setText v text
  | tree => exact Variable.fresh_keepTree fresh

namespace VariableTable.Current

variable {table : VariableTable}

theorem set (current : table.Current) {v : Variable} (fresh : v.Fresh) :
    (table.set v).Current := by
  intro w member
  unfold VariableTable.set at member
  split at member
  · rcases List.mem_or_eq_of_mem_set member with old | rfl
    · exact current w old
    · exact fresh
  · rcases List.eq_or_mem_of_mem_insertIdx member with rfl | old
    · exact fresh
    · exact current w old

theorem findOrInsert (current : table.Current) (name : String) :
    (table.findOrInsert name).2.Current := by
  intro w member
  unfold VariableTable.findOrInsert at member
  split at member
  · exact current w member
  · rcases List.eq_or_mem_of_mem_insertIdx member with rfl | old
    · exact Variable.fresh_named name
    · exact current w old

theorem modify? (current : table.Current) (name : String)
    {change : Variable → Variable} (keeps : ∀ v, v.Fresh → (change v).Fresh) :
    ((table.modify? name change).getD table).Current := by
  unfold VariableTable.modify?
  split
  · exact forall_mem_modify current keeps _
  · exact current

theorem keepTree (current : table.Current) (name : String) :
    (table.keepTree name).Current := by
  unfold VariableTable.keepTree
  split
  · exact forall_mem_modify current (fun _ => Variable.fresh_keepTree) _
  · exact current

theorem remove? (current : table.Current) {name : String} {v : Variable}
    {rest : VariableTable} (done : table.remove? name = some (v, rest)) :
    v.Fresh ∧ rest.Current := by
  unfold VariableTable.remove? at done
  split at done
  · obtain ⟨w, entry, same⟩ := Option.map_eq_some_iff.mp done
    cases same
    exact ⟨current v (List.mem_of_getElem? entry), fun u member =>
      current u ((List.eraseIdx_sublist _ _).subset member)⟩
  · cases done

theorem ofList {entries : List Variable} (fresh : ∀ v ∈ entries, v.Fresh) :
    (VariableTable.ofList entries).Current :=
  List.foldlRecOn entries _ (fun _ member => absurd member List.not_mem_nil)
    fun _ current v member => set current ((fresh v member).rename _)

theorem learn (current : table.Current) (log : Log) :
    (table.learn log).Current :=
  List.foldlRecOn log.read _
    (List.foldlRecOn log.used _ current fun _ current name _ =>
      findOrInsert current name)
    fun _ current name _ => keepTree current name

/-- Trees are current after a translation, also if it fails. -/
theorem translate (current : table.Current) (parameters : List String)
    (e : Expr) : (Formula.translate table parameters e).2.Current := by
  rcases translate_learns table parameters e with ⟨unchanged, -⟩ | learned
  · rwa [unchanged]
  · rw [learned]
    exact current.learn _

theorem apply (current : table.Current) (step : TableStep) :
    (step.apply table).Current := by
  cases step with
  | change name change =>
    exact current.modify? name fun v fresh => change.fresh_apply fresh
  | find name => exact current.findOrInsert name
  | retain names =>
    exact fun v member => current v (List.mem_filter.mp member).1
  | load text =>
    simp only [TableStep.apply]
    cases read : (Json.read? text).bind VariableTable.ofJson? with
    | none => exact current
    | some loaded =>
      obtain ⟨j, -, decoded⟩ := Option.bind_eq_some_iff.mp read
      obtain ⟨entries, listed, rfl⟩ := Option.map_eq_some_iff.mp decoded
      exact ofList (fresh_of_list? listed)
  | openFormula text =>
    simp only [TableStep.apply]
    cases read : ofText? text with
    | none => exact current
    | some formula =>
      obtain ⟨j, -, decoded⟩ := Option.bind_eq_some_iff.mp read
      obtain ⟨entries, bare, made⟩ := table_of_ofJson? decoded
      rw [Option.map_some, Option.getD_some, made]
      exact ofList fun v member => Variable.fresh_of_bare (bare v member)
  | translate parameters e => exact current.translate parameters e
  | compile source parameters =>
    rcases table_compile { source, parameters, table } with
      unchanged | ⟨e, -, translated⟩
    · simp only [TableStep.apply, unchanged]
      exact current
    · simp only [TableStep.apply, translated]
      exact current.translate parameters e

end VariableTable.Current

/-! ## Desks -/

/-- Tables, and variables beside them. -/
structure Desk where
  tables : List VariableTable
  loose : List Variable

/-- What is done on a desk. Tables and variables are picked by their places. A
variable that is put into a table stays beside it as a copy. -/
inductive DeskStep where
  | make (v : {v : Variable // v.Made})
  /-- Reads a variable from a document, with its name as it is spelled. -/
  | read (text : String)
  | change (i : Nat) (change : VariableChange)
  /-- Copies a variable. -/
  | copy (i : Nat)
  /-- Makes a table of some of the variables. -/
  | gather (picks : List Nat)
  /-- Copies the variables of a table out of it. -/
  | spread (t : Nat)
  | copyTable (t : Nat)
  | table (t : Nat) (step : TableStep)
  | put (t i : Nat)
  /-- Overwrites the variable of a name with another variable. -/
  | overwrite (t : Nat) (name : String) (i : Nat)
  /-- Takes the variable of a name out. -/
  | take (t : Nat) (name : String)

namespace Desk

/-- At first there is nothing. -/
def clear : Desk := ⟨[], []⟩

/-- All variables, in tables or beside them. -/
def all (desk : Desk) : List Variable :=
  desk.loose ++ desk.tables.flatMap (·.entries)

def apply (desk : Desk) : DeskStep → Desk
  | .make v => { desk with loose := desk.loose ++ [v.val] }
  | .read text => { desk with loose :=
      desk.loose ++ ((Json.read? text).bind Variable.ofJson?).toList }
  | .change i c => { desk with loose := desk.loose.modify i (c.apply ·) }
  | .copy i => { desk with loose := desk.loose ++ desk.loose[i]?.toList }
  | .gather picks => { desk with tables :=
      desk.tables ++ [.ofList (picks.filterMap (desk.loose[·]?))] }
  | .spread t => { desk with loose :=
      desk.loose ++ (desk.tables[t]?.map (·.entries)).getD [] }
  | .copyTable t => { desk with tables :=
      desk.tables ++ desk.tables[t]?.toList }
  | .table t step =>
    { desk with tables := desk.tables.modify t (step.apply ·) }
  | .put t i =>
    match desk.loose[i]? with
    | none => desk
    | some v => { desk with tables := desk.tables.modify t (·.set v) }
  | .overwrite t name i =>
    match desk.loose[i]? with
    | none => desk
    | some v => { desk with tables := desk.tables.modify t fun table =>
        (table.modify? name fun _ => v).getD table }
  | .take t name =>
    match desk.tables[t]?.bind (·.remove? name) with
    | none => desk
    | some (v, rest) => ⟨desk.tables.set t rest, desk.loose ++ [v]⟩

/-- Every kept tree is what the text says. -/
structure Current (desk : Desk) : Prop where
  tables : ∀ table ∈ desk.tables, table.Current
  loose : ∀ v ∈ desk.loose, v.Fresh

theorem Current.clear : clear.Current := ⟨nofun, nofun⟩

section

variable {desk : Desk}

/-- More variables beside the tables. -/
theorem Current.addLoose (current : desk.Current) {more : List Variable}
    (fresh : ∀ v ∈ more, v.Fresh) :
    Current { desk with loose := desk.loose ++ more } where
  tables := current.tables
  loose v member := (List.mem_append.mp member).elim (current.loose v) (fresh v)

theorem Current.addTables (current : desk.Current) {more : List VariableTable}
    (fresh : ∀ table ∈ more, table.Current) :
    Current { desk with tables := desk.tables ++ more } where
  tables table member :=
    (List.mem_append.mp member).elim (current.tables table) (fresh table)
  loose := current.loose

theorem Current.modify (current : desk.Current) (t : Nat)
    {change : VariableTable → VariableTable}
    (keeps : ∀ table : VariableTable, table.Current → (change table).Current) :
    Current { desk with tables := desk.tables.modify t change } where
  tables := forall_mem_modify current.tables keeps t
  loose := current.loose

theorem Current.of_loose (current : desk.Current) {i : Nat} {v : Variable}
    (found : desk.loose[i]? = some v) : v.Fresh :=
  current.loose v (List.mem_of_getElem? found)

/-- Every step keeps the trees current. -/
theorem Current.apply (current : desk.Current) (step : DeskStep) :
    (desk.apply step).Current := by
  cases step with
  | make v =>
    refine current.addLoose fun w member => ?_
    rw [List.mem_singleton.mp member]
    exact v.property.fresh
  | read text =>
    refine current.addLoose fun v member => ?_
    obtain ⟨j, -, decoded⟩ := Option.bind_eq_some_iff.mp (Option.mem_toList.mp member)
    exact Variable.fresh_of_bare (Variable.kept_ofJson? decoded)
  | change i c =>
    exact ⟨current.tables,
      forall_mem_modify current.loose (fun _ fresh => c.fresh_apply fresh) i⟩
  | copy i =>
    exact current.addLoose fun v member =>
      current.of_loose (Option.mem_toList.mp member)
  | gather picks =>
    refine current.addTables fun table member => ?_
    rw [List.mem_singleton.mp member]
    refine VariableTable.Current.ofList fun v picked => ?_
    obtain ⟨i, -, found⟩ := List.mem_filterMap.mp picked
    exact current.of_loose found
  | spread t =>
    refine current.addLoose fun v member => ?_
    cases found : desk.tables[t]? with
    | none =>
      rw [found] at member
      cases member
    | some table =>
      rw [found] at member
      exact current.tables table (List.mem_of_getElem? found) v member
  | copyTable t =>
    exact current.addTables fun table member =>
      current.tables table (List.mem_of_getElem? (Option.mem_toList.mp member))
  | table t step => exact current.modify t fun _ current => current.apply step
  | put t i =>
    simp only [Desk.apply]
    split
    · exact current
    · next v found =>
      exact current.modify t fun _ inside => inside.set (current.of_loose found)
  | overwrite t name i =>
    simp only [Desk.apply]
    split
    · exact current
    · next v found =>
      exact current.modify t fun _ inside =>
        inside.modify? name fun _ _ => current.of_loose found
  | take t name =>
    simp only [Desk.apply]
    split
    · exact current
    · next v rest taken =>
      obtain ⟨table, found, removed⟩ := Option.bind_eq_some_iff.mp taken
      obtain ⟨fresh, left⟩ :=
        (current.tables table (List.mem_of_getElem? found)).remove? removed
      refine ⟨fun other member => ?_, fun w member => ?_⟩
      · rcases List.mem_or_eq_of_mem_set member with old | rfl
        · exact current.tables other old
        · exact left
      · rcases List.mem_append.mp member with old | last
        · exact current.loose w old
        · rw [List.mem_singleton.mp last]
          exact fresh

/-- Whatever is done, the trees are current. -/
theorem Current.run (current : desk.Current) (steps : List DeskStep) :
    (steps.foldl Desk.apply desk).Current :=
  List.foldlRecOn steps _ current fun _ current step _ => current.apply step

theorem Current.fresh (current : desk.Current) {v : Variable}
    (member : v ∈ desk.all) : v.Fresh := by
  rcases List.mem_append.mp member with beside | inside
  · exact current.loose v beside
  · obtain ⟨table, present, entry⟩ := List.mem_flatMap.mp inside
    exact current.tables table present v entry

end

end Desk

/-- **Kept trees are never stale.** Whatever is done on a desk, the tree of a
variable, in a table or beside it, is what reading its text gives: the same
tree, an error with the name of the variable and what is wrong with the text,
or an error that there is no text, which is so if and only if it is blank. -/
theorem trees_current (steps : List DeskStep) :
    ∀ v ∈ (steps.foldl Desk.apply Desk.clear).all,
      v.tree = (match parse v.text with
        | .error reason => .error (.invalidSubFormula v.name reason)
        | .ok none => .error (.emptySubFormula v.name)
        | .ok (some tree) => .ok tree) ∧
      (v.tree = .error (.emptySubFormula v.name) ↔
        ∀ c ∈ v.text.toList, isBlank c = true) := by
  intro v member
  have current := Desk.Current.clear.run steps
  have read : v.tree = v.readTree :=
    Variable.tree_of_fresh (current.fresh member)
  refine ⟨read, ?_⟩
  rw [read, ← parse_eq_none_iff, Variable.readTree]
  rcases parse v.text with reason | _ | tree <;> simp

/-- A tree is read and kept, and then the text is made blank. -/
theorem trees_current_blanked :
    let steps : List DeskStep := [.make ⟨.subFormula "s" "1", .subFormula "s" "1"⟩,
      .change 0 .tree, .change 0 (.text " ")]
    let v := (Variable.subFormula "s" "1").keepTree.setText " "
    v ∈ (steps.foldl Desk.apply Desk.clear).all ∧
      v.tree = .error (.emptySubFormula v.name) := by
  intro steps v
  have there : v ∈ (steps.foldl Desk.apply Desk.clear).all := List.mem_cons_self
  have text : v.text = " " := rfl
  have blank : ∀ c ∈ " ".toList, isBlank c = true := by simp [isBlank]
  exact ⟨there, (trees_current steps v there).2.mpr (text ▸ blank)⟩

end FieldMesh.Formula
