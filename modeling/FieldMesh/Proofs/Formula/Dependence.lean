import Mathlib.Data.Set.Card
import Mathlib.Logic.Relation
import FieldMesh.Proofs.Formula.Emission
import FieldMesh.Proofs.Formula.Lookup

/-!
# What an expression depends on

An expression names sub-formulas, whose texts name others. Here is what that
leads to, told by relations on names and trees, without a log and without an
order in which anything is done.

* `Scope.Spells`, `Scope.Reads`: the text of a sub-formula, and its tree;
* `Scope.Reaches`: the trees that an expression leads to, and `Scope.Uses`,
  the names in them;
* `Scope.Refers`: a sub-formula names another one;
* `Scope.Translatable`: what has to hold of all this;
* `Scope.Ordered`: sub-formulas in an order in which each only names earlier
  ones. None of them is on a cycle (`Ordered.acyclic`).
-/

namespace FieldMesh.Formula

open FieldMesh.Program (Opcode)
open FieldMesh.Text

/-! ## Sub-formulas -/

/-- What a name stands for that is no parameter: a variable of that name, or,
if there is none, what the name in lower case stands for by its first letter. -/
inductive Scope.Declares (scope : Scope) (name : String) : Variable → Prop
  | declared {v : Variable} (member : v ∈ scope.table.entries)
      (named : v.name = name) : scope.Declares name v
  | undeclared (missing : ∀ v ∈ scope.table.entries, v.name ≠ name) :
      scope.Declares name (.implied (lower name))

/-- The name stands for a sub-formula with that text. -/
def Scope.Spells (scope : Scope) (name text : String) : Prop :=
  ∃ v, scope.Declares name v ∧ v.kind = .subFormula ∧ v.text = text

/-- The name stands for a sub-formula whose text says that tree. -/
def Scope.Reads (scope : Scope) (name : String) (tree : Expr) : Prop :=
  ∃ text, scope.Spells name text ∧ parse text = .ok (some tree)

/-- The name stands for a sub-formula. -/
def Scope.Abbreviates (scope : Scope) (name : String) : Prop :=
  ∃ text, scope.Spells name text

/-- A name that occurs among some nodes and is no parameter. -/
def Scope.Mentions (scope : Scope) (nodes : List Expr) (name : String) : Prop :=
  .reference name ∈ nodes ∧ scope.Free name

/-- One sub-formula names another one. -/
def Scope.Refers (scope : Scope) (outer inner : String) : Prop :=
  (∃ tree, scope.Reads outer tree ∧ scope.Mentions tree.preorder inner) ∧
    scope.Abbreviates inner

/-- The trees that an expression leads to: itself, and the trees of the
sub-formulas that they name. -/
inductive Scope.Reaches (scope : Scope) (e : Expr) : Expr → Prop
  | self : scope.Reaches e e
  | through {outer tree : Expr} {name : String} (reached : scope.Reaches e outer)
      (mentioned : scope.Mentions outer.preorder name)
      (read : scope.Reads name tree) : scope.Reaches e tree

/-- The names that an expression uses. -/
def Scope.Uses (scope : Scope) (e : Expr) (name : String) : Prop :=
  ∃ tree, scope.Reaches e tree ∧ scope.Mentions tree.preorder name

/-- Every call among some nodes is one of a function that there is, with as
many arguments as it takes. -/
def Callable (nodes : List Expr) : Prop :=
  ∀ function arguments, Expr.call function arguments ∈ nodes →
    ∃ op : Opcode, op.function? = some function ∧
      op.arity = arguments.length

/-- The sub-formulas that an expression uses. -/
def Scope.subFormulas (scope : Scope) (e : Expr) : Set String :=
  {name | scope.Uses e name ∧ scope.Abbreviates name}

/-- What makes an expression one that can be translated. -/
structure Scope.Translatable (scope : Scope) (e : Expr) : Prop where
  calls : ∀ tree, scope.Reaches e tree → Callable tree.preorder
  texts : ∀ name text, scope.Uses e name → scope.Spells name text →
    ∃ tree, parse text = .ok (some tree)
  acyclic : ∀ name, scope.Uses e name →
    ¬ Relation.TransGen scope.Refers name name
  few : (scope.subFormulas e).encard ≤ 255

/-! ## One text for a name -/

section Unique

variable {scope : Scope} {name : String}

theorem Scope.Declares.unique (ascending : scope.table.Ascending)
    {v w : Variable} (first : scope.Declares name v)
    (second : scope.Declares name w) : v = w := by
  cases first with
  | declared member named =>
    cases second with
    | declared member' named' =>
      exact ascending.eq_of_name member member' (named.trans named'.symm)
    | undeclared missing => exact absurd named (missing v member)
  | undeclared missing =>
    cases second with
    | declared member named => exact absurd named (missing w member)
    | undeclared => rfl

theorem Scope.Spells.unique (ascending : scope.table.Ascending)
    {text text' : String} (first : scope.Spells name text)
    (second : scope.Spells name text') : text = text' := by
  obtain ⟨v, declares, -, rfl⟩ := first
  obtain ⟨w, declares', -, rfl⟩ := second
  rw [declares.unique ascending declares']

theorem Scope.Reads.unique (ascending : scope.table.Ascending)
    {tree tree' : Expr} (first : scope.Reads name tree)
    (second : scope.Reads name tree') : tree = tree' := by
  obtain ⟨text, spells, read⟩ := first
  obtain ⟨text', spells', read'⟩ := second
  cases spells.unique ascending spells'
  rw [read] at read'
  cases read'
  rfl

theorem Scope.Reads.abbreviates {tree : Expr} (read : scope.Reads name tree) :
    scope.Abbreviates name := by
  obtain ⟨text, spells, -⟩ := read
  exact ⟨text, spells⟩

theorem Scope.declares_of_find? (ascending : scope.table.Ascending)
    {found : Option Variable} (search : scope.table.find? name = found) :
    scope.Declares name (found.getD (.implied (lower name))) := by
  cases found with
  | none =>
    exact .undeclared ((VariableTable.find?_eq_none_iff ascending).mp search)
  | some v =>
    obtain ⟨member, named⟩ := VariableTable.find?_some search
    exact .declared member named

end Unique

/-! ## Trees and calls -/

/-- A variable has a tree exactly if its text says one. -/
theorem Variable.tree_eq_ok_iff {v : Variable} (fresh : v.Fresh)
    {tree : Expr} : v.tree = .ok tree ↔ parse v.text = .ok (some tree) := by
  rw [tree_of_fresh fresh]
  unfold readTree
  constructor
  · intro read
    split at read
    · cases read
    · cases read
    · next found =>
      cases read
      exact found
  · intro said
    rw [said]

/-- A call stands for an operation exactly if there is one of that name with
as many operands. -/
theorem Functions.resolve_ok_iff {name : String} {count : Nat} :
    (∃ op, resolve name count = .ok op) ↔
      ∃ op : Opcode, op.function? = some name ∧ op.arity = count := by
  unfold resolve
  simp only
  constructor
  · rintro ⟨op, found⟩
    split at found
    · cases found
    · split at found
      · next op member =>
        have named := List.mem_of_find?_eq_some member
        rw [overloads, List.mem_filter, beq_iff_eq] at named
        exact ⟨op, named.2, by simpa using List.find?_some member⟩
      · cases found
  · rintro ⟨op, named, takes⟩
    have member : op ∈ overloads name := by
      rw [overloads, List.mem_filter, beq_iff_eq]
      exact ⟨op.mem_all, named⟩
    rw [if_neg (by simpa using List.ne_nil_of_mem member)]
    cases found : (overloads name).find? (·.arity == count) with
    | some other => exact ⟨other, rfl⟩
    | none =>
      rw [List.find?_eq_none] at found
      exact absurd (beq_iff_eq.mpr takes) (found op member)

/-! ## Orders -/

/-- Names of sub-formulas, the last first. Each is used, has a tree whose
calls are fine, and names earlier ones only. -/
inductive Scope.Ordered (scope : Scope) (e : Expr) : List String → Prop
  | nil : scope.Ordered e []
  | cons {name : String} {tree : Expr} {earlier : List String}
      (order : scope.Ordered e earlier) (new : name ∉ earlier)
      (used : scope.Uses e name) (read : scope.Reads name tree)
      (callable : Callable tree.preorder)
      (below : ∀ inner, scope.Mentions tree.preorder inner →
        scope.Abbreviates inner → inner ∈ earlier) :
      scope.Ordered e (name :: earlier)

namespace Scope.Ordered

variable {scope : Scope} {e : Expr} {names : List String}

theorem nodup (order : scope.Ordered e names) : names.Nodup := by
  induction order with
  | nil => exact .nil
  | cons _ new _ _ _ _ ih => exact List.nodup_cons.mpr ⟨new, ih⟩

/-- Every name in an order stands for a used sub-formula. -/
theorem mem_subFormulas (order : scope.Ordered e names) {name : String}
    (member : name ∈ names) : name ∈ scope.subFormulas e := by
  induction order with
  | nil => cases member
  | cons _ _ used read _ _ ih =>
    rcases List.mem_cons.mp member with rfl | member
    · exact ⟨used, read.abbreviates⟩
    · exact ih member

/-- What is known of the tree of a name in an order. -/
theorem tree (order : scope.Ordered e names) {name : String}
    (member : name ∈ names) :
    ∃ tree, scope.Reads name tree ∧ Callable tree.preorder ∧
      ∀ inner, scope.Mentions tree.preorder inner →
        scope.Abbreviates inner → inner ∈ names := by
  induction order with
  | nil => cases member
  | @cons _ tree _ _ _ _ read callable below ih =>
    rcases List.mem_cons.mp member with rfl | member
    · exact ⟨tree, read, callable, fun inner mentioned abbreviates =>
        List.mem_cons_of_mem _ (below inner mentioned abbreviates)⟩
    · obtain ⟨tree', read', callable', closed⟩ := ih member
      exact ⟨tree', read', callable', fun inner mentioned abbreviates =>
        List.mem_cons_of_mem _ (closed inner mentioned abbreviates)⟩

/-- References do not leave an order. -/
theorem mem_of_refers (order : scope.Ordered e names)
    (ascending : scope.table.Ascending) {outer inner : String}
    (member : outer ∈ names) (refers : scope.Refers outer inner) :
    inner ∈ names := by
  obtain ⟨⟨tree, read, mentioned⟩, abbreviates⟩ := refers
  obtain ⟨tree', read', -, closed⟩ := order.tree member
  cases read.unique ascending read'
  exact closed inner mentioned abbreviates

theorem mem_of_transGen (order : scope.Ordered e names)
    (ascending : scope.table.Ascending) {outer inner : String}
    (member : outer ∈ names) (path : Relation.TransGen scope.Refers outer inner) :
    inner ∈ names := by
  induction path with
  | single refers => exact order.mem_of_refers ascending member refers
  | tail _ refers ih => exact order.mem_of_refers ascending ih refers

/-- No name in an order is on a cycle: references lead to earlier names. -/
theorem acyclic (order : scope.Ordered e names)
    (ascending : scope.table.Ascending) {name : String} (member : name ∈ names) :
    ¬ Relation.TransGen scope.Refers name name := by
  induction order with
  | nil => cases member
  | @cons last tree earlier order new _ read _ below ih =>
    rcases List.mem_cons.mp member with rfl | member
    · intro cycle
      have back {inner : String} (refers : scope.Refers name inner) :
          inner ∈ earlier := by
        obtain ⟨⟨tree', read', mentioned⟩, abbreviates⟩ := refers
        cases read.unique ascending read'
        exact below inner mentioned abbreviates
      rcases Relation.TransGen.head'_iff.mp cycle with ⟨inner, refers, rest⟩
      rcases Relation.reflTransGen_iff_eq_or_transGen.mp rest with rfl | rest
      · exact new (back refers)
      · exact new (order.mem_of_transGen ascending (back refers) rest)
    · exact ih member

/-- There are at least as many sub-formulas as an order has. -/
theorem length_le (order : scope.Ordered e names) :
    names.length ≤ (scope.subFormulas e).encard := by
  have inside : (names.toFinset : Set String) ⊆ scope.subFormulas e := by
    intro name member
    exact order.mem_subFormulas (List.mem_toFinset.mp member)
  rw [← List.toFinset_card_of_nodup order.nodup,
    ← Set.encard_coe_eq_coe_finsetCard]
  exact Set.encard_le_encard inside

end Scope.Ordered

section Closed

variable {scope : Scope} {e : Expr} {names : List String}
  (order : scope.Ordered e names) (ascending : scope.table.Ascending)
  (callable : Callable e.preorder)
  (closed : ∀ inner, scope.Mentions e.preorder inner →
    scope.Abbreviates inner → inner ∈ names)

include order ascending callable closed

/-- What holds of the trees in an order holds of all that the expression leads
to. -/
theorem Scope.Ordered.of_reaches {tree : Expr} (reach : scope.Reaches e tree) :
    Callable tree.preorder ∧ ∀ inner, scope.Mentions tree.preorder inner →
      scope.Abbreviates inner → inner ∈ names := by
  induction reach with
  | self => exact ⟨callable, closed⟩
  | @through outer tree name _ mentioned read ih =>
    obtain ⟨tree', read', callable', closed'⟩ :=
      order.tree (ih.2 name mentioned read.abbreviates)
    cases read.unique ascending read'
    exact ⟨callable', closed'⟩

/-- An order that has what the expression mentions has all that it uses. -/
theorem Scope.Ordered.mem_iff {name : String} :
    name ∈ names ↔ name ∈ scope.subFormulas e := by
  refine ⟨order.mem_subFormulas, ?_⟩
  rintro ⟨⟨tree, reach, mentioned⟩, abbreviates⟩
  exact (order.of_reaches ascending callable closed reach).2 name mentioned
    abbreviates

/-- There are as many sub-formulas as such an order has. -/
theorem Scope.Ordered.encard_eq :
    (scope.subFormulas e).encard = names.length := by
  have same : scope.subFormulas e = (names.toFinset : Set String) := by
    ext name
    rw [← order.mem_iff ascending callable closed]
    exact List.mem_toFinset.symm
  rw [same, Set.encard_coe_eq_coe_finsetCard,
    List.toFinset_card_of_nodup order.nodup]

/-- An expression can be translated whose sub-formulas are in an order of at
most 255. -/
theorem Scope.Ordered.translatable (few : names.length ≤ 255) :
    scope.Translatable e := by
  have reached {tree : Expr} (reach : scope.Reaches e tree) :=
    order.of_reaches ascending callable closed reach
  refine ⟨fun tree reach => (reached reach).1, ?_, ?_, ?_⟩
  · intro name text used spells
    have member := (order.mem_iff ascending callable closed).mpr
      ⟨used, text, spells⟩
    obtain ⟨tree, ⟨text', spells', read⟩, -⟩ := order.tree member
    cases spells.unique ascending spells'
    exact ⟨tree, read⟩
  · intro name used cycle
    obtain ⟨inner, -, ⟨-, abbreviates⟩⟩ := Relation.TransGen.tail'_iff.mp cycle
    have member := (order.mem_iff ascending callable closed).mpr
      ⟨used, abbreviates⟩
    exact order.acyclic ascending member cycle
  · rw [order.encard_eq ascending callable closed]
    exact_mod_cast few

end Closed

end FieldMesh.Formula
