import FieldMesh.Formula.CompileError
import FieldMesh.Formula.Parser
import FieldMesh.Vector

/-!
# Variables

A name that formulas can use, with its value: a vector, a number, or a
formula of its own. The tree of a sub-formula is kept once it has been read.

* `Variable.tree`: the tree of a sub-formula, from the kept one if there is
  one;
* `Variable.Fresh`: the kept tree is what its text says now. The functions
  of this file keep it so, and then `Variable.tree_of_fresh` says that
  keeping trees makes no difference.
-/

namespace FieldMesh.Formula

open FieldMesh.Text

/-- What a variable stands for. -/
inductive VariableKind where
  | vector
  /-- A number, the first of the value, in every place. -/
  | float
  /-- An expression, computed once however often it is used. -/
  | subFormula
  deriving DecidableEq, Repr

namespace VariableKind

/-- The kind of a name that is used without having been declared, by its
first letter. -/
def ofName (name : String) : VariableKind :=
  match name.toList.head? with
  | some 'f' => .float
  | some 's' => .subFormula
  | _ => .vector

/-- The rule of the kinds, told by how a name begins: with `f` for a number, with
`s` for a sub-formula, with anything else for a vector. -/
def byInitial (name : String) : VariableKind :=
  if ['f'] <+: name.toList then .float
  else if ['s'] <+: name.toList then .subFormula
  else .vector

theorem ofName_eq_byInitial (name : String) : ofName name = byInitial name := by
  unfold ofName byInitial
  cases name.toList with
  | nil => rfl
  | cons first rest =>
    simp only [List.head?_cons, List.cons_prefix_cons, List.nil_prefix, and_true]
    by_cases number : 'f' = first
    · subst number
      rfl
    by_cases text : 's' = first
    · subst text
      rfl
    rw [if_neg number, if_neg text]
    split
    · next same => exact absurd (Option.some.inj same).symm number
    · next same => exact absurd (Option.some.inj same).symm text
    · rfl

/-- The spelling in documents. -/
def documentName : VariableKind → String
  | .vector => "vector3"
  | .float => "float"
  | .subFormula => "sub_formula"

/-- The kind that a document spells so. -/
def ofDocumentName? (name : String) : Option VariableKind :=
  [vector, float, subFormula].find? (·.documentName == name)

theorem ofDocumentName?_documentName (kind : VariableKind) :
    ofDocumentName? kind.documentName = some kind := by
  cases kind <;> rfl

end VariableKind

/-- A named value. -/
structure Variable where
  /-- The name, in lower case. -/
  name : String
  kind : VariableKind
  value : Vec3
  /-- The text of the sub-formula. -/
  text : String
  /-- The tree of the text, once it has been read. -/
  kept : Option Expr

namespace Variable

/-! ## Making and changing variables -/

/-- The variable that a name stands for before it is declared. -/
def named (name : String) : Variable :=
  let name := lower name
  { name, kind := .ofName name, value := Vec3.zero, text := "", kept := none }

/-- What a name in lower case stands for by itself: its kind goes by its first
letter, its value is zero, and it has no text. -/
def implied (name : String) : Variable :=
  { name, kind := .byInitial name, value := Vec3.zero, text := "", kept := none }

theorem named_eq_implied (name : String) : named name = implied (lower name) := by
  rw [named, VariableKind.ofName_eq_byInitial]
  rfl

/-- A vector. -/
def vector (name : String) (value : Vec3) : Variable :=
  { named name with kind := .vector, value }

/-- A number. -/
def float (name : String) (value : Float32) : Variable :=
  { named name with kind := .float, value := ⟨value, 0.0, 0.0⟩ }

/-- A sub-formula. -/
def subFormula (name text : String) : Variable :=
  { named name with kind := .subFormula, text }

/-- Replaces the text of the sub-formula; the tree of the old one is not
kept. -/
def setText (v : Variable) (text : String) : Variable :=
  { v with text, kept := none }

/-- The vector of a variable that is no sub-formula. -/
def constant (v : Variable) : Vec3 :=
  match v.kind with
  | .float => Vec3.splat v.value.x
  | .vector | .subFormula => v.value

/-- Whether two variables say the same. Kept trees do not count. -/
def same (v w : Variable) : Bool :=
  v.name == w.name && v.kind == w.kind && v.value.sameNumbers w.value &&
    v.text == w.text

/-! ## The tree of a sub-formula -/

/-- Reads the text of the sub-formula. -/
def readTree (v : Variable) : Except CompileError Expr :=
  match parse v.text with
  | .error reason => .error (.invalidSubFormula v.name reason)
  | .ok none => .error (.emptySubFormula v.name)
  | .ok (some tree) => .ok tree

/-- The tree of the sub-formula: the kept one, or else what the text
says. -/
def tree (v : Variable) : Except CompileError Expr :=
  match v.kept with
  | some tree => .ok tree
  | none => v.readTree

/-- Keeps the tree, if there is one. -/
def keepTree (v : Variable) : Variable :=
  match v.tree with
  | .ok tree => { v with kept := some tree }
  | .error _ => v

/-- The kept tree, if there is one, is what the text says. -/
def Fresh (v : Variable) : Prop :=
  ∀ tree, v.kept = some tree → v.readTree = .ok tree

theorem tree_of_fresh {v : Variable} (fresh : v.Fresh) :
    v.tree = v.readTree := by
  unfold tree
  split
  · next tree found => exact (fresh tree found).symm
  · rfl

theorem fresh_named (name : String) : (named name).Fresh := by
  intro tree found
  cases found

theorem fresh_setText (v : Variable) (text : String) :
    (v.setText text).Fresh := by
  intro tree found
  cases found

theorem fresh_keepTree {v : Variable} (fresh : v.Fresh) :
    v.keepTree.Fresh := by
  unfold keepTree
  split
  · next tree found =>
    intro other kept
    cases kept
    exact (tree_of_fresh fresh).symm.trans found
  · exact fresh

end Variable

end FieldMesh.Formula
