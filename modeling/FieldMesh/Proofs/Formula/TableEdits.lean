import Mathlib.Data.Set.Card
import Mathlib.Logic.Function.Basic
import FieldMesh.Formula.Document
import FieldMesh.Proofs.Formula.Retranslation
import FieldMesh.Proofs.Text.ByteOrder

/-!
# Tables are finite maps

A table goes through edits: variables are put in, changed and taken out, whole
tables are read from documents, and translation declares what it comes across.
Beside it goes a map from names to declarations, on which every edit is told
in one line. They never differ.

* `Variable.Held`: the variables that come about. A variable that is read from
  a document by itself keeps its name as it is spelled there, all others have
  names in lower case (`Variable.Folded`);
* `TableEdit`: the edits, and what each does to a table (`apply`) and to a map
  (`onMap`);
* `Represents`: a table says what a map says, and its names ascend.
  `Represents.edit` keeps it, edit by edit; `Represents.folded_onMap` keeps the
  names in lower case, unless a variable with another name is put in;
* **main result**: `edited_isMap`, for all that tables are asked.
-/

namespace FieldMesh.Formula

open FieldMesh.Text

/-! ## Maps -/

/-- What names are declared to be. -/
abbrev Declarations := String → Option Declaration

/-- Declares a name as what it says by itself, unless it is declared. -/
def Declarations.declare (m : Declarations) (name : String) : Declarations :=
  Function.update m name (some ((m name).getD (.implied name)))

/-- Changes the declaration of a name, if there is one. -/
def Declarations.change (m : Declarations) (name : String)
    (f : Declaration → Declaration) : Declarations :=
  Function.update m name ((m name).map f)

/-- The names of a map are in lower case. -/
def Declarations.Folded (m : Declarations) : Prop :=
  ∀ name, m name ≠ none → lower name = name

theorem Declarations.folded_none : Declarations.Folded fun _ => none :=
  fun _ there => absurd rfl there

theorem Declarations.Folded.update {m : Declarations} (folded : m.Folded)
    {name : String} (lowered : lower name = name) (d : Option Declaration) :
    Declarations.Folded (Function.update m name d) := by
  intro other there
  rw [Function.update_apply] at there
  split at there
  · next same => rw [same, lowered]
  · exact folded other there

/-- The names of a list of variables, once folded, are in lower case. -/
theorem Declarations.folded_ofList (entries : List Variable) :
    Declarations.Folded (entries.foldl
      (fun m v => Function.update m (lower v.name) (some v.declaration))
      fun _ => none) :=
  List.foldlRecOn entries _ folded_none fun _ folded v _ =>
    folded.update (lower_lower v.name) _

/-! ## Variables -/

/-- A variable as it is made. -/
inductive Variable.Made : Variable → Prop
  | named (name : String) : (named name).Made
  | vector (name : String) (value : Vec3) : (vector name value).Made
  | float (name : String) (value : Float32) : (float name value).Made
  | subFormula (name text : String) : (subFormula name text).Made

/-- A variable that was made, or read from a document by itself, and changed any
number of times. -/
inductive Variable.Held : Variable → Prop
  | made {v : Variable} (made : v.Made) : v.Held
  | read {j : Json} {v : Variable} (read : ofJson? j = some v) : v.Held
  | kind {v : Variable} (held : v.Held) (kind : VariableKind) :
    Held { v with kind }
  | value {v : Variable} (held : v.Held) (value : Vec3) : Held { v with value }
  | text {v : Variable} (held : v.Held) (text : String) : (v.setText text).Held
  | tree {v : Variable} (held : v.Held) : v.keepTree.Held

/-- The name of a variable is in lower case. -/
def Variable.Folded (v : Variable) : Prop := lower v.name = v.name

theorem Variable.Made.folded {v : Variable} (made : v.Made) : v.Folded := by
  cases made <;> exact lower_lower _

theorem Variable.Made.fresh {v : Variable} (made : v.Made) : v.Fresh := by
  intro tree kept
  cases made <;> cases kept

/-- A variable without a tree has none that is out of date. -/
theorem Variable.fresh_of_bare {v : Variable} (bare : v.kept = none) : v.Fresh := by
  intro tree kept
  rw [bare] at kept
  cases kept

/-- A document of a variable has no tree. -/
theorem Variable.kept_ofJson? {j : Json} {v : Variable}
    (read : Variable.ofJson? j = some v) : v.kept = none := by
  obtain ⟨members, -, read⟩ := Option.bind_eq_some_iff.mp read
  split at read
  · obtain ⟨_, -, read⟩ := Option.bind_eq_some_iff.mp read
    obtain ⟨_, -, read⟩ := Option.bind_eq_some_iff.mp read
    obtain ⟨_, -, read⟩ := Option.bind_eq_some_iff.mp read
    obtain ⟨_, -, read⟩ := Option.bind_eq_some_iff.mp read
    obtain ⟨_, -, read⟩ := Option.bind_eq_some_iff.mp read
    cases read
    rfl
  · cases read

/-- Whatever was done to a variable, a kept tree is what its text says. -/
theorem Variable.Held.fresh {v : Variable} (held : v.Held) : v.Fresh := by
  induction held with
  | made made => exact made.fresh
  | read read => exact fresh_of_bare (kept_ofJson? read)
  | kind _ kind ih => exact fun tree kept => ih tree kept
  | value _ value ih => exact fun tree kept => ih tree kept
  | text _ text _ => exact fresh_setText _ text
  | tree _ ih => exact fresh_keepTree ih

/-! ## Edits -/

/-- What is done to a table. -/
inductive TableEdit where
  | set (v : Variable)
  | find (name : String)
  | setKind (name : String) (kind : VariableKind)
  | setValue (name : String) (value : Vec3)
  | setText (name text : String)
  | remove (name : String)
  | retain (names : Names)
  /-- Replaces the table by that of a document, if it is one of a table. -/
  | load (text : String)
  | translate (parameters : List String) (e : Expr)

/-- The names that come up when an expression is translated, whether that
succeeds or not. -/
def namesMet (table : VariableTable) (parameters : List String) (e : Expr) :
    Names :=
  if 256 < parameters.length then []
  else (translationLog table parameters e).used

namespace TableEdit

/-- Variables have come about, and names that are asked for as they are spelled
are in lower case. -/
def Proper : TableEdit → Prop
  | set v => v.Held
  | find name => lower name = name
  | translate _ e => Lowered e.preorder
  | _ => True

/-- Variables that are put in have names in lower case. -/
def Folded : TableEdit → Prop
  | set v => v.Folded
  | _ => True

/-- What an edit does to a table. -/
def apply (table : VariableTable) : TableEdit → VariableTable
  | set v => table.set v
  | find name => (table.findOrInsert name).2
  | setKind name kind =>
    (table.modify? name fun v => { v with kind }).getD table
  | setValue name value =>
    (table.modify? name fun v => { v with value }).getD table
  | setText name text => (table.modify? name (·.setText text)).getD table
  | remove name => ((table.remove? name).map Prod.snd).getD table
  | retain names => table.retain names
  | load text =>
    ((Json.read? text).bind VariableTable.ofJson?).getD table
  | translate parameters e => (Formula.translate table parameters e).2

/-- What the edit of a table does to a map. The table only matters for the
names that a translation comes across. -/
def onMap (table : VariableTable) (m : Declarations) : TableEdit → Declarations
  | set v => Function.update m v.name (some v.declaration)
  | find name => m.declare name
  | setKind name kind => m.change (lower name) fun d => { d with kind }
  | setValue name value => m.change (lower name) fun d => { d with value }
  | setText name text => m.change (lower name) fun d => { d with text }
  | remove name => Function.update m (lower name) none
  | retain names => fun name => if name ∈ names then m name else none
  | load text =>
    match (Json.read? text).bind (Json.list? Variable.ofJson?) with
    | none => m
    | some entries => entries.foldl
      (fun m v => Function.update m (lower v.name) (some v.declaration))
      fun _ => none
  | translate parameters e =>
    (namesMet table parameters e).foldl Declarations.declare m

end TableEdit

/-- The table and the map after edits. At first both are empty. -/
def edited (edits : List TableEdit) : VariableTable × Declarations :=
  edits.foldl (fun (table, m) edit => (edit.apply table, edit.onMap table m))
    (.empty, fun _ => none)

/-! ## Tables that represent maps -/

/-- A table says what a map says, and its names ascend. -/
structure Represents (table : VariableTable) (m : Declarations) : Prop where
  sound : table.Sound
  declares : ∀ name, table.declaration? name = m name

theorem represents_empty : Represents .empty fun _ => none where
  sound := VariableTable.sound_empty
  declares name := by
    rw [VariableTable.declaration?, VariableTable.find?_empty, Option.map_none]

/-- A tree depends on the text; the name only counts in complaints. -/
theorem Variable.Fresh.rename {v : Variable} (fresh : v.Fresh) (name : String) :
    ({ v with name } : Variable).Fresh := by
  intro tree kept
  have read := fresh tree kept
  unfold Variable.readTree at read ⊢
  simp only
  split at read
  · cases read
  · cases read
  · exact read

/-- A document of a table has no trees. -/
theorem kept_of_list? {j : Json} {entries : List Variable}
    (read : Json.list? Variable.ofJson? j = some entries) :
    ∀ v ∈ entries, v.kept = none := by
  have all : ∀ (items : List Json) {entries : List Variable},
      items.mapM Variable.ofJson? = some entries →
        ∀ v ∈ entries, v.kept = none := by
    intro items
    induction items with
    | nil =>
      intro entries read v member
      cases read
      cases member
    | cons item rest ih =>
      intro entries read
      rw [List.mapM_cons] at read
      obtain ⟨v, first, read⟩ := Option.bind_eq_some_iff.mp read
      obtain ⟨others, rest, read⟩ := Option.bind_eq_some_iff.mp read
      cases read
      exact List.forall_mem_cons.mpr ⟨Variable.kept_ofJson? first, ih rest⟩
  cases j with
  | list items => exact all items read
  | _ => cases read

/-- The table of a document is made of the variables that it lists. -/
theorem bind_ofJson? (text : String) :
    (Json.read? text).bind VariableTable.ofJson? =
      ((Json.read? text).bind (Json.list? Variable.ofJson?)).map .ofList :=
  Option.map_bind.symm

theorem fresh_of_list? {j : Json} {entries : List Variable}
    (read : Json.list? Variable.ofJson? j = some entries) :
    ∀ v ∈ entries, v.Fresh := fun v member =>
  Variable.fresh_of_bare (kept_of_list? read v member)

namespace Represents

variable {table : VariableTable} {m : Declarations}

theorem set (represents : Represents table m) {v : Variable} (fresh : v.Fresh) :
    Represents (table.set v) (Function.update m v.name (some v.declaration)) where
  sound := represents.sound.set fresh
  declares name := by
    rw [VariableTable.declaration?, VariableTable.find?_set represents.sound fresh,
      Function.update_apply]
    split
    · rfl
    · exact represents.declares name

theorem modify? (represents : Represents table m) (name : String)
    (change : Variable → Variable) (f : Declaration → Declaration)
    (named : ∀ v, (change v).name = v.name)
    (fresh : ∀ v, v.Fresh → (change v).Fresh)
    (changes : ∀ v, (change v).declaration = f v.declaration) :
    Represents ((table.modify? name change).getD table)
      (m.change (lower name) f) where
  sound := by
    cases done : table.modify? name change with
    | none => exact represents.sound
    | some changed => exact represents.sound.modify? named fresh done
  declares other := by
    rw [VariableTable.declaration?, VariableTable.find?_modify?
      represents.sound.ascending named, Declarations.change, Function.update_apply]
    split
    · next same =>
      rw [← represents.declares, VariableTable.declaration?, same,
        Option.map_map, Option.map_map]
      exact congrArg (Option.map · _) (funext changes)
    · exact represents.declares other

theorem remove? (represents : Represents table m) (name : String) :
    Represents (((table.remove? name).map Prod.snd).getD table)
      (Function.update m (lower name) none) := by
  have answer := VariableTable.remove?_eq represents.sound.ascending name
  refine ⟨?_, fun other => ?_⟩
  · cases done : table.remove? name with
    | none => exact represents.sound
    | some answer => exact represents.sound.remove? done
  · rw [Function.update_apply]
    cases done : table.remove? name with
    | none =>
      rw [done] at answer
      split
      · next same =>
        rw [same, Option.map_none, Option.getD_none, VariableTable.declaration?,
          answer, Option.map_none]
      · exact represents.declares other
    | some removed =>
      rw [done] at answer
      rw [Option.map_some, Option.getD_some, VariableTable.declaration?,
        answer.2 other]
      split
      · rfl
      · exact represents.declares other

theorem retain (represents : Represents table m) (names : Names) :
    Represents (table.retain names)
      fun name => if name ∈ names then m name else none where
  sound := represents.sound.retain names
  declares name := by
    rw [VariableTable.declaration?, VariableTable.find?_retain represents.sound]
    split
    · exact represents.declares name
    · rfl

theorem findOrInsert (represents : Represents table m) {name : String}
    (lowered : lower name = name) :
    Represents (table.findOrInsert name).2 (m.declare name) where
  sound := represents.sound.findOrInsert lowered
  declares other := by
    have found : (table.findOrInsert name).2.find? other =
        if other = name then some ((table.find? name).getD (.named name))
        else table.find? other :=
      (VariableTable.findOrInsert_eq represents.sound lowered).2.1 other
    rw [VariableTable.declaration?, found, Declarations.declare,
      Function.update_apply]
    split
    · rw [← represents.declares, VariableTable.declaration?]
      cases table.find? name with
      | none => exact congrArg some (Variable.declaration_named lowered)
      | some v => rfl
    · exact represents.declares other

theorem keepTree (represents : Represents table m) (name : String) :
    Represents (table.keepTree name) m where
  sound := represents.sound.keepTree name
  declares other := by
    rw [← represents.declares, VariableTable.declaration?,
      VariableTable.find?_keepTree represents.sound.ascending]
    split
    · rw [Option.map_map, VariableTable.declaration?]
      exact congrArg (Option.map · _) (funext Variable.declaration_keepTree)
    · rfl

/-- What a translation leaves: its names are declared, its trees are kept. -/
theorem learn (represents : Represents table m) {log : Log}
    (lowered : ∀ name ∈ log.used, lower name = name) :
    Represents (table.learn log) (log.used.foldl Declarations.declare m) := by
  have declared : ∀ names : Names, (∀ name ∈ names, lower name = name) →
      ∀ {table m}, Represents table m →
        Represents (names.foldl (fun t name => (t.findOrInsert name).2) table)
          (names.foldl Declarations.declare m) := by
    intro names
    induction names with
    | nil => exact fun _ _ _ represents => represents
    | cons name rest ih =>
      intro lowered table m represents
      obtain ⟨first, others⟩ := List.forall_mem_cons.mp lowered
      exact ih others (represents.findOrInsert first)
  have kept : ∀ names : List String, ∀ {table m}, Represents table m →
      Represents (names.foldl VariableTable.keepTree table) m := by
    intro names
    induction names with
    | nil => exact fun represents => represents
    | cons name rest ih =>
      exact fun represents => ih (represents.keepTree name)
  exact kept log.read (declared log.used lowered represents)

/-- The names that a translation comes across are in lower case. -/
theorem lowered_namesMet (represents : Represents table m)
    (parameters : List String) {e : Expr} (lowered : Lowered e.preorder) :
    ∀ name ∈ namesMet table parameters e, lower name = name := by
  unfold namesMet
  split
  · exact fun _ member => absurd member List.not_mem_nil
  · exact lowered_used _ represents.sound lowered

theorem translate (represents : Represents table m) (parameters : List String)
    {e : Expr} (lowered : Lowered e.preorder) :
    Represents (Formula.translate table parameters e).2
      ((namesMet table parameters e).foldl Declarations.declare m) := by
  have folded := represents.lowered_namesMet parameters lowered
  unfold Formula.translate namesMet at *
  split
  · exact represents
  · next few =>
    rw [if_neg few] at folded
    exact represents.learn folded

theorem ofList {entries : List Variable} (fresh : ∀ v ∈ entries, v.Fresh) :
    Represents (.ofList entries) (entries.foldl
      (fun m v => Function.update m (lower v.name) (some v.declaration))
      fun _ => none) := by
  have all : ∀ entries : List Variable, (∀ v ∈ entries, v.Fresh) →
      ∀ {table m}, Represents table m → Represents
        (entries.foldl (fun t v => t.set { v with name := lower v.name }) table)
        (entries.foldl
          (fun m v => Function.update m (lower v.name) (some v.declaration))
          m) := by
    intro entries
    induction entries with
    | nil => exact fun _ _ _ represents => represents
    | cons v rest ih =>
      intro fresh table m represents
      obtain ⟨first, others⟩ := List.forall_mem_cons.mp fresh
      exact ih others (represents.set (first.rename _))
  exact all entries fresh represents_empty

/-- Every edit does to the table what it does to the map. -/
theorem edit (represents : Represents table m) {edit : TableEdit}
    (proper : edit.Proper) :
    Represents (edit.apply table) (edit.onMap table m) := by
  cases edit with
  | set v => exact represents.set proper.fresh
  | find name => exact represents.findOrInsert proper
  | setKind name kind =>
    exact represents.modify? name (fun v => { v with kind })
      (fun d => { d with kind }) (fun _ => rfl)
      (fun _ fresh tree kept => fresh tree kept) fun _ => rfl
  | setValue name value =>
    exact represents.modify? name (fun v => { v with value })
      (fun d => { d with value }) (fun _ => rfl)
      (fun _ fresh tree kept => fresh tree kept) fun _ => rfl
  | setText name text =>
    exact represents.modify? name (·.setText text) (fun d => { d with text })
      (fun _ => rfl) (fun v _ => v.fresh_setText text) fun _ => rfl
  | remove name => exact represents.remove? name
  | retain names => exact represents.retain names
  | load text =>
    simp only [TableEdit.apply, TableEdit.onMap, bind_ofJson?]
    cases read : (Json.read? text).bind (Json.list? Variable.ofJson?) with
    | none => exact represents
    | some entries =>
      obtain ⟨j, -, read⟩ := Option.bind_eq_some_iff.mp read
      exact ofList (fresh_of_list? read)
  | translate parameters e => exact represents.translate parameters proper

/-- Every sequence of edits does to the table what it does to the map. -/
theorem edits (represents : Represents table m) {edits : List TableEdit}
    (proper : ∀ edit ∈ edits, edit.Proper) :
    let after := edits.foldl
      (fun (table, m) edit => (edit.apply table, edit.onMap table m)) (table, m)
    Represents after.1 after.2 := by
  induction edits generalizing table m with
  | nil => exact represents
  | cons first rest ih =>
    obtain ⟨proper, others⟩ := List.forall_mem_cons.mp proper
    exact ih (represents.edit proper) others

/-- Names in lower case stay so, unless a variable with another name is put in. -/
theorem folded_onMap (represents : Represents table m) (folded : m.Folded)
    {edit : TableEdit} (proper : edit.Proper) (keeps : edit.Folded) :
    (edit.onMap table m).Folded := by
  cases edit with
  | set v => exact folded.update keeps _
  | find name => exact folded.update proper _
  | setKind name | setValue name | setText name | remove name =>
    exact folded.update (lower_lower name) _
  | retain names =>
    intro name there
    simp only [TableEdit.onMap] at there
    split at there
    · exact folded name there
    · exact absurd rfl there
  | load text =>
    simp only [TableEdit.onMap]
    split
    · exact folded
    · next entries _ => exact Declarations.folded_ofList entries
  | translate parameters e =>
    exact List.foldlRecOn _ _ folded fun _ folded name member =>
      folded.update (represents.lowered_namesMet parameters proper name member) _

/-- The same, edit after edit. -/
theorem folded_edits (represents : Represents table m) (folded : m.Folded)
    {edits : List TableEdit} (proper : ∀ edit ∈ edits, edit.Proper)
    (keeps : ∀ edit ∈ edits, edit.Folded) :
    let after := edits.foldl
      (fun (table, m) edit => (edit.apply table, edit.onMap table m)) (table, m)
    Declarations.Folded after.2 := by
  induction edits generalizing table m with
  | nil => exact folded
  | cons first rest ih =>
    obtain ⟨proper, others⟩ := List.forall_mem_cons.mp proper
    obtain ⟨keeps, othersKeep⟩ := List.forall_mem_cons.mp keeps
    exact ih (represents.edit proper) (represents.folded_onMap folded proper keeps)
      others othersKeep

/-- The names of the table are the names of the map. -/
theorem mem_names (represents : Represents table m) (name : String) :
    (∃ v ∈ table.entries, v.name = name) ↔ m name ≠ none := by
  rw [← represents.declares, VariableTable.declaration?, Ne, Option.map_eq_none_iff,
    VariableTable.find?_eq_none_iff represents.sound.ascending]
  push Not
  rfl

/-- There are as many variables as declared names. -/
theorem size_eq (represents : Represents table m) :
    table.size = {name | m name ≠ none}.ncard := by
  have names : {name | m name ≠ none} =
      ((table.entries.map Variable.name).toFinset : Set String) := by
    ext name
    simp [← represents.mem_names]
  have distinct : (table.entries.map Variable.name).Nodup :=
    List.pairwise_map.mpr (represents.sound.ascending.imp ne_of_lt)
  rw [names, Set.ncard_coe_finset, List.toFinset_card_of_nodup distinct,
    List.length_map, VariableTable.size]

end Represents

/-! ## What tables answer -/

/-- What an answer says: the name and what it is declared to be. -/
def Variable.told (v : Variable) : String × Declaration := (v.name, v.declaration)

theorem Represents.get? {table : VariableTable} {m : Declarations}
    (represents : Represents table m) (name : String) :
    (table.get? name).map Variable.told =
      (m (lower name)).map (Prod.mk (lower name)) := by
  rw [← represents.declares, VariableTable.declaration?, VariableTable.get?]
  cases found : table.find? (lower name) with
  | none => rfl
  | some v =>
    exact congrArg some (Prod.ext (VariableTable.find?_some found).2 rfl)

/-- What is taken out is what was asked for before. -/
theorem Represents.removed {table : VariableTable} {m : Declarations}
    (represents : Represents table m) (name : String) :
    (table.remove? name).map (·.1.told) =
      (m (lower name)).map (Prod.mk (lower name)) := by
  rw [← represents.get?, VariableTable.get?]
  have answer := VariableTable.remove?_eq represents.sound.ascending name
  cases done : table.remove? name with
  | none =>
    rw [done] at answer
    rw [answer]
    rfl
  | some removed =>
    rw [done] at answer
    rw [answer.1]
    rfl

/-- **Tables are finite maps.** After every sequence of edits, the names ascend by
their bytes, and they are in lower case if those of the variables that were put
in are. Asked for a name in any spelling, the table answers as the map for the
name in lower case, whether the variable is taken out or not. A name that is put
in is at the place that is given, and if it was there, nothing changes. The size
is the number of names. -/
theorem edited_isMap (edits : List TableEdit)
    (proper : ∀ edit ∈ edits, edit.Proper) :
    let (table, m) := edited edits
    (table.entries.Pairwise fun v w => bytes v.name < bytes w.name) ∧
    ((∀ edit ∈ edits, edit.Folded) → ∀ v ∈ table.entries, lower v.name = v.name) ∧
    (∀ name, (table.get? name).map Variable.told =
      (m (lower name)).map (Prod.mk (lower name))) ∧
    (∀ name, (table.remove? name).map (·.1.told) =
      (m (lower name)).map (Prod.mk (lower name))) ∧
    (∀ name, lower name = name →
      let (i, after) := table.findOrInsert name
      (∃ v, after.entries[i]? = some v ∧ v.name = name) ∧
      (m name ≠ none → after = table)) ∧
    table.size = {name | m name ≠ none}.ncard := by
  have represents : Represents (edited edits).1 (edited edits).2 :=
    represents_empty.edits proper
  refine ⟨represents.sound.ascending.imp fun below => lt_iff_bytes_lt.mp below,
    fun keeps v member => ?_, represents.get?, represents.removed,
    fun name lowered => ?_, represents.size_eq⟩
  · have folded : (edited edits).2.Folded :=
      represents_empty.folded_edits Declarations.folded_none proper keeps
    exact folded v.name ((represents.mem_names v.name).mp ⟨v, member, rfl⟩)
  · obtain ⟨place, -, unchanged⟩ :=
      VariableTable.findOrInsert_eq represents.sound lowered
    refine ⟨place, fun there => unchanged fun absent => there ?_⟩
    exact (represents.declares name).symm.trans (congrArg _ absent)

/-- The last number counts, under any spelling of its name. Names that are only
asked for are a number and a sub-formula, by their first letters. -/
theorem edited_isMap_float :
    let (table, m) := edited [.set (.float "B" 1.0), .find "a",
      .set (.float "b" 2.0), .remove "A", .find "f", .find "s"]
    (∀ v ∈ table.entries, lower v.name = v.name) ∧
      (table.get? "B").map Variable.told =
        some ("b", ⟨.float, ⟨2.0, 0.0, 0.0⟩, ""⟩) ∧
      (table.get? "F").map Variable.told = some ("f", ⟨.float, Vec3.zero, ""⟩) ∧
      (table.get? "S").map Variable.told =
        some ("s", ⟨.subFormula, Vec3.zero, ""⟩) ∧
      table.get? "a" = none ∧
      table.size = {name | m name ≠ none}.ncard := by
  have a : lower "A" = "a" := by decide +kernel
  have a' : lower "a" = "a" := by decide +kernel
  have b : lower "B" = "b" := by decide +kernel
  have b' : lower "b" = "b" := by decide +kernel
  have f : lower "F" = "f" := by decide +kernel
  have f' : lower "f" = "f" := by decide +kernel
  have s : lower "S" = "s" := by decide +kernel
  have s' : lower "s" = "s" := by decide +kernel
  have first := Variable.Made.float "B" 1.0
  have last := Variable.Made.float "b" 2.0
  obtain ⟨-, folded, get, -, -, size⟩ := edited_isMap
    [.set (.float "B" 1.0), .find "a", .set (.float "b" 2.0), .remove "A",
      .find "f", .find "s"] (by
      simpa [TableEdit.Proper, a', f', s'] using
        ⟨Variable.Held.made first, Variable.Held.made last⟩)
  refine ⟨folded (by simpa [TableEdit.Folded] using ⟨first.folded, last.folded⟩),
    (get "B").trans ?_, (get "F").trans ?_, (get "S").trans ?_,
    Option.map_eq_none_iff.mp ((get "a").trans ?_), size⟩
  all_goals
    simp [TableEdit.onMap, Declarations.declare, Declaration.implied,
      VariableKind.byInitial, a, a', b, b', f, s, Variable.float, Variable.named,
      Variable.declaration]

end FieldMesh.Formula
