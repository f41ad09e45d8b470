import FieldMesh.Formula.Basic
import FieldMesh.Proofs.Formula.TableEdits
import FieldMesh.Proofs.Json.Values

/-!
# Edits of formulas

A formula is empty at first. Then its text and its parameters are replaced,
variables are put in, changed and taken out, trees are kept, documents are
opened, and it is compiled, in any order. Whatever is done, its table stays a
map, and one of names in lower case unless a variable with another name is put
in.

* `Variable.held_iff`: the variables that can come about, under any name;
* `Edit`: what is done to a formula, and `Edit.apply`, what comes of it;
* **main results**: `represents_ofEdits` and `folded_ofEdits`.
-/

namespace FieldMesh.Formula

open FieldMesh.Text

/-! ## Variables that come about -/

/-- Any name, as it is spelled, is read from some document of a variable. -/
theorem Variable.held_bare (name : String) :
    Held ⟨name, .vector, Vec3.zero, "", none⟩ := by
  let document : Json := .ofFields
    [("name", .ofText name), ("kind", .ofText VariableKind.vector.documentName)]
  have read : ofJson? document = some ⟨name, .vector, Vec3.zero, "", none⟩ := by
    have choice : Json.choice? (.ofText VariableKind.vector.documentName) =
        some VariableKind.vector.documentName := rfl
    have text : Json.text? (.ofText name) = some name := rfl
    rw [ofJson?, Json.members?_ofFields (by simp)]
    simp [List.lookup_cons, Json.required, Json.optional, choice, text,
      VariableKind.ofDocumentName?_documentName]
  exact .read read

/-- The variables that come about are those whose kept tree, if there is one, is
what the text says. Their names may be spelled in any way. -/
theorem Variable.held_iff {v : Variable} : v.Held ↔ v.Fresh := by
  refine ⟨Held.fresh, fun fresh => ?_⟩
  obtain ⟨name, kind, value, text, kept⟩ := v
  have bare : Held ⟨name, kind, value, text, none⟩ :=
    ((held_bare name).kind kind |>.value value).text text
  cases kept with
  | none => exact bare
  | some tree =>
    -- the kept tree is what is kept when the text is read again
    have read : readTree ⟨name, kind, value, text, none⟩ = .ok tree := fresh tree rfl
    have kept := bare.tree
    simp only [keepTree, Variable.tree, read] at kept
    exact kept

/-- The names of a table are in lower case if those of the map are. -/
theorem Represents.folded_of_mem {table : VariableTable} {m : Declarations}
    (represents : Represents table m) (folded : m.Folded) {v : Variable}
    (member : v ∈ table.entries) : v.Folded :=
  folded v.name ((represents.mem_names v.name).mp ⟨v, member, rfl⟩)

/-- What is taken from a table can be put into one. -/
theorem Represents.held {table : VariableTable} {m : Declarations}
    (represents : Represents table m) {v : Variable} (member : v ∈ table.entries) :
    v.Held :=
  Variable.held_iff.mpr (represents.sound.fresh v member)

/-! ## Edits -/

/-- The formula in the text of a document. -/
def ofText? (text : String) : Option Formula := (Json.read? text).bind ofJson?

/-- What is done to a formula. -/
inductive Edit where
  /-- Replaces the text. -/
  | source (text : String)
  | parameters (names : List String)
  /-- Puts a variable in. -/
  | put (v : Variable)
  | table (edit : TableEdit)
  /-- Reads the sub-formula of a name, if there is one. -/
  | tree (name : String)
  /-- Replaces all by the formula of a document, if it is one of a formula. -/
  | load (text : String)
  | compile

namespace Edit

/-- Variables have come about, and names that are asked for as they are spelled
are in lower case. -/
def Proper : Edit → Prop
  | put v => v.Held
  | table edit => edit.Proper
  | _ => True

/-- Variables that are put in have names in lower case. -/
def Folded : Edit → Prop
  | put v => v.Folded
  | table edit => edit.Folded
  | _ => True

/-- What an edit does to a formula. -/
def apply (formula : Formula) : Edit → Formula
  | source text => { formula with source := text }
  | parameters names => formula.setParameters names
  | put v => formula.setVariable v
  | table edit => { formula with table := edit.apply formula.table }
  | tree name => { formula with table := formula.table.keepTree (lower name) }
  | load text => (ofText? text).getD formula
  | compile => formula.compile.2

end Edit

/-- The formula after edits. At first it is empty. -/
def ofEdits (edits : List Edit) : Formula :=
  edits.foldl Edit.apply { source := "" }

/-! ## What edits keep -/

/-- The table of a document is none, or made of variables without trees. -/
theorem table_of_ofJson? {j : Json} {formula : Formula}
    (read : ofJson? j = some formula) :
    ∃ entries : List Variable, (∀ v ∈ entries, v.kept = none) ∧
      formula.table = .ofList entries := by
  obtain ⟨members, -, read⟩ := Option.bind_eq_some_iff.mp read
  split at read
  · next source parameters table =>
    obtain ⟨_, -, read⟩ := Option.bind_eq_some_iff.mp read
    obtain ⟨_, -, read⟩ := Option.bind_eq_some_iff.mp read
    obtain ⟨read', given, read⟩ := Option.bind_eq_some_iff.mp read
    cases read
    cases table with
    | none =>
      cases given
      exact ⟨[], nofun, rfl⟩
    | some j =>
      obtain ⟨entries, listed, rfl⟩ := Option.map_eq_some_iff.mp given
      exact ⟨entries, kept_of_list? listed, rfl⟩
  · cases read

section

variable {formula : Formula} {m : Declarations}

theorem table_compile (formula : Formula) :
    formula.compile.2.table = formula.table ∨
      ∃ e, parse formula.source = .ok (some e) ∧
        formula.compile.2.table =
          (translate formula.table formula.parameters e).2 := by
  rcases read : parse formula.source with reason | _ | e
  · exact .inl (by rw [compile, read])
  · exact .inl (by rw [compile, read])
  · exact .inr ⟨e, rfl, by rw [compile, read]⟩

/-- Every edit leaves a map, whose names stay in lower case unless a variable with
another name is put in. -/
theorem Edit.represents {edit : Edit} (proper : edit.Proper)
    (represents : Represents formula.table m) :
    ∃ m', Represents (edit.apply formula).table m' ∧
      (m.Folded → edit.Folded → m'.Folded) := by
  cases edit with
  | source text => exact ⟨m, represents, fun folded _ => folded⟩
  | parameters names => exact ⟨m, represents, fun folded _ => folded⟩
  | put v =>
    exact ⟨_, represents.set proper.fresh, fun folded keeps => folded.update keeps _⟩
  | table edit =>
    exact ⟨_, represents.edit proper, fun folded keeps =>
      represents.folded_onMap folded proper keeps⟩
  | tree name => exact ⟨m, represents.keepTree (lower name), fun folded _ => folded⟩
  | load text =>
    simp only [Edit.apply]
    cases read : ofText? text with
    | none => exact ⟨m, represents, fun folded _ => folded⟩
    | some loaded =>
      obtain ⟨j, -, decoded⟩ := Option.bind_eq_some_iff.mp read
      obtain ⟨entries, bare, made⟩ := table_of_ofJson? decoded
      have listed := Represents.ofList fun v member =>
        Variable.fresh_of_bare (bare v member)
      exact ⟨_, made ▸ listed, fun _ _ => Declarations.folded_ofList entries⟩
  | compile =>
    rcases formula.table_compile with unchanged | ⟨e, read, translated⟩
    · exact ⟨m, unchanged ▸ represents, fun folded _ => folded⟩
    · have lowered := lowered_of_parse read
      have proper : (TableEdit.translate formula.parameters e).Proper := lowered
      exact ⟨_, translated ▸ represents.edit proper, fun folded _ =>
        represents.folded_onMap folded proper trivial⟩

/-- A sequence of edits leaves a map. Its names are in lower case if those of the
variables that were put in are. -/
theorem represents_foldl (represents : Represents formula.table m) {edits : List Edit}
    (proper : ∀ edit ∈ edits, edit.Proper) :
    ∃ m', Represents (edits.foldl Edit.apply formula).table m' ∧
      (m.Folded → (∀ edit ∈ edits, edit.Folded) → m'.Folded) := by
  induction edits generalizing formula m with
  | nil => exact ⟨m, represents, fun folded _ => folded⟩
  | cons edit rest ih =>
    obtain ⟨first, others⟩ := List.forall_mem_cons.mp proper
    obtain ⟨m', represents', keeps⟩ := Edit.represents first represents
    obtain ⟨m'', represents'', keeps'⟩ := ih represents' others
    refine ⟨m'', represents'', fun folded all => ?_⟩
    obtain ⟨this, othersKeep⟩ := List.forall_mem_cons.mp all
    exact keeps' (keeps folded this) othersKeep

theorem represents_nothing :
    Represents (table { source := "" }) fun _ => none := represents_empty

/-- **Edits.** Whatever is done to a formula, its table is a map. -/
theorem represents_ofEdits {edits : List Edit}
    (proper : ∀ edit ∈ edits, edit.Proper) :
    ∃ m, Represents (ofEdits edits).table m := by
  obtain ⟨m, represents, -⟩ := represents_foldl represents_nothing proper
  exact ⟨m, represents⟩

/-- Its names are in lower case if those of all variables that were put in are. -/
theorem folded_ofEdits {edits : List Edit} (proper : ∀ edit ∈ edits, edit.Proper)
    (keeps : ∀ edit ∈ edits, edit.Folded) :
    ∀ v ∈ (ofEdits edits).table.entries, v.Folded := by
  obtain ⟨m, represents, folded⟩ := represents_foldl represents_nothing proper
  exact fun v member =>
    represents.folded_of_mem (folded Declarations.folded_none keeps) member

end

end FieldMesh.Formula
