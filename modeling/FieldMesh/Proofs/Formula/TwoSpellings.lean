import FieldMesh.Proofs.Formula.Counterparts
import FieldMesh.Proofs.Formula.Respelling

/-!
# Two spellings of one formula

A formula is put together twice, by the same edits, with names and texts spelled
in two ways: the letters in different case, or the tokens of texts with more
blanks around them. Both compile to the same. Only names that a table takes as
they are have one spelling: those that it is asked for so, those that are
retained, and those of variables that were read from a document by themselves.

* `Respelling`: a way of spelling names and texts differently, with what it
  leaves of errors; `letterCase` and `blanks` are the two at hand;
* `Edit.Respelled`: the same edit, spelled differently; `Edit.Respelled.apply`
  says that it leaves formulas that say the same;
* **main result**: `compile_respelled`.
-/

namespace FieldMesh.Formula

open FieldMesh.Text

/-! ## Ways of spelling -/

/-- A way of spelling names and texts differently. Names are still the same when
folded, and texts stand for the same, or for errors of which the same counts. -/
structure Respelling where
  names : String → String → Prop
  texts : String → String → Prop
  /-- What counts of an error. -/
  blur : ParseError → ParseError
  lower_eq : ∀ {s t : String}, names s t → lower s = lower t
  alike : ∀ {s t : String}, texts s t → SayAlike blur s t

/-- The letters of ASCII in different case. -/
def Respelling.letterCase : Respelling where
  names := SameLetters
  texts := SameLetters
  blur := id
  lower_eq := lower_congr
  alike same := congrArg (Except.mapError id) (parse_congr same)

/-- An error without its place. -/
def ParseError.unplaced (e : ParseError) : ParseError := { e with offset := 0 }

theorem sayAlike_of_respaced {s t : String} (respaced : Respaced s.toList t.toList) :
    SayAlike .unplaced s t := by
  unfold SayAlike
  rcases cases_of_mapError_eq (fault_parse_congr respaced) with
    ⟨reason, reason', read, read', same⟩ | ⟨e, read, read'⟩
  · rw [read, read']
    have told : reason.unplaced = reason'.unplaced :=
      congrArg (ParseError.mk · 0) same
    exact congrArg Except.error told
  · rw [read, read']

/-- More blanks before, between and behind the tokens of a text. They move the
places of errors. -/
def Respelling.blanks : Respelling where
  names := Eq
  texts s t := s = t ∨ Respaced s.toList t.toList
  blur := .unplaced
  lower_eq := congrArg lower
  alike
    | .inl same => same ▸ rfl
    | .inr respaced => sayAlike_of_respaced respaced

variable (r : Respelling)

/-! ## Variables -/

/-- A variable made under two spellings of its name, and of its text. -/
inductive Variable.Remade : Variable → Variable → Prop
  | named {s t} : r.names s t → Remade (named s) (named t)
  | vector {s t} (value : Vec3) :
    r.names s t → Remade (vector s value) (vector t value)
  | float {s t} (value : Float32) :
    r.names s t → Remade (float s value) (float t value)
  | subFormula {s t text text'} : r.names s t → r.texts text text' →
    Remade (subFormula s text) (subFormula t text')

/-- A variable as it is listed in a document, under two spellings. Documents have
no trees. -/
structure Variable.Relisted (v w : Variable) : Prop where
  name : r.names v.name w.name
  kind : v.kind = w.kind
  value : v.value = w.value
  text : r.texts v.text w.text
  bare : v.kept = none ∧ w.kept = none

/-- A variable made, or read by itself, and changed under two spellings. The name
of one that was read is not folded, so it is spelled in one way. -/
inductive Variable.Respelled : Variable → Variable → Prop
  | made {v w} : Remade r v w → Respelled v w
  | read {v w} : v.name = w.name → Relisted r v w → Respelled v w
  | kind {v w} (kind : VariableKind) :
    Respelled v w → Respelled { v with kind } { w with kind }
  | value {v w} (value : Vec3) :
    Respelled v w → Respelled { v with value } { w with value }
  | text {v w text text'} : r.texts text text' →
    Respelled v w → Respelled (v.setText text) (w.setText text')
  | tree {v w} : Respelled v w → Respelled v.keepTree w.keepTree

/-! ## Edits -/

/-- An edit of a table under two spellings. Names that are taken as they are have
one spelling, in lower case where they are asked for. -/
inductive TableEdit.Respelled : TableEdit → TableEdit → Prop
  | set {v w} : v.Respelled r w → Respelled (.set v) (.set w)
  | find {name} : lower name = name → Respelled (.find name) (.find name)
  | setKind {s t} (kind : VariableKind) :
    r.names s t → Respelled (.setKind s kind) (.setKind t kind)
  | setValue {s t} (value : Vec3) :
    r.names s t → Respelled (.setValue s value) (.setValue t value)
  | setText {s t text text'} : r.names s t → r.texts text text' →
    Respelled (.setText s text) (.setText t text')
  | remove {s t} : r.names s t → Respelled (.remove s) (.remove t)
  | retain (names : Names) : Respelled (.retain names) (.retain names)
  | load {text text' entries entries'} :
    (Json.read? text).bind (Json.list? Variable.ofJson?) = some entries →
    (Json.read? text').bind (Json.list? Variable.ofJson?) = some entries' →
    List.Forall₂ (Variable.Relisted r) entries entries' →
    Respelled (.load text) (.load text')
  /-- Two documents that are none of a table. -/
  | refused {text text'} :
    (Json.read? text).bind (Json.list? Variable.ofJson?) = none →
    (Json.read? text').bind (Json.list? Variable.ofJson?) = none →
    Respelled (.load text) (.load text')
  | translate {ps qs e} : List.Forall₂ r.names ps qs → Lowered e.preorder →
    Respelled (.translate ps e) (.translate qs e)

/-- A formula as it is in a document, under two spellings. -/
structure Relisted (formula formula' : Formula) : Prop where
  source : r.texts formula.source formula'.source
  parameters : List.Forall₂ r.names formula.parameters formula'.parameters
  table : ∃ entries entries' : List Variable,
    formula.table = .ofList entries ∧ formula'.table = .ofList entries' ∧
      List.Forall₂ (Variable.Relisted r) entries entries'

/-- An edit of a formula under two spellings. -/
inductive Edit.Respelled : Edit → Edit → Prop
  | source {s t} : r.texts s t → Respelled (.source s) (.source t)
  | parameters {ps qs} :
    List.Forall₂ r.names ps qs → Respelled (.parameters ps) (.parameters qs)
  | put {v w} : v.Respelled r w → Respelled (.put v) (.put w)
  | table {edit edit'} :
    edit.Respelled r edit' → Respelled (.table edit) (.table edit')
  | tree {s t} : r.names s t → Respelled (.tree s) (.tree t)
  | load {text text' formula formula'} :
    ofText? text = some formula → ofText? text' = some formula' →
    Relisted r formula formula' → Respelled (.load text) (.load text')
  /-- Two documents that are none of a formula. -/
  | refused {text text'} :
    ofText? text = none → ofText? text' = none → Respelled (.load text) (.load text')
  | compile : Respelled .compile .compile

variable {r}

/-! ## What edits leave -/

theorem map_lower_congr {ps qs : List String} (same : List.Forall₂ r.names ps qs) :
    ps.map lower = qs.map lower := by
  induction same with
  | nil => rfl
  | cons first _ ih => rw [List.map_cons, List.map_cons, r.lower_eq first, ih]

namespace Variable

variable {v w : Variable}

theorem named_congr {s t : String} (same : lower s = lower t) :
    named s = named t := by
  rw [named, named, same]

theorem Remade.alike (remade : Remade r v w) :
    v.Held ∧ w.Held ∧ v.name = w.name ∧ v.declaration.Alike r.blur w.declaration := by
  cases remade with
  | named same =>
    refine ⟨.made (.named _), .made (.named _), r.lower_eq same, ?_⟩
    rw [named_congr (r.lower_eq same)]
    exact .refl _
  | vector value same =>
    exact ⟨.made (.vector _ _), .made (.vector _ _), r.lower_eq same, rfl, rfl, rfl⟩
  | float value same =>
    exact ⟨.made (.float _ _), .made (.float _ _), r.lower_eq same, rfl, rfl, rfl⟩
  | subFormula same texts =>
    exact ⟨.made (.subFormula _ _), .made (.subFormula _ _), r.lower_eq same, rfl, rfl,
      r.alike texts⟩

theorem Relisted.alike (relisted : Relisted r v w) :
    lower v.name = lower w.name ∧ v.declaration.Alike r.blur w.declaration :=
  ⟨r.lower_eq relisted.name, relisted.kind, relisted.value, r.alike relisted.text⟩

theorem Respelled.alike (respelled : Respelled r v w) :
    v.Held ∧ w.Held ∧ v.name = w.name ∧ v.declaration.Alike r.blur w.declaration := by
  induction respelled with
  | made remade => exact remade.alike
  | read name relisted =>
    obtain ⟨bare, bare'⟩ := relisted.bare
    exact ⟨held_iff.mpr (fresh_of_bare bare), held_iff.mpr (fresh_of_bare bare'), name,
      relisted.alike.2⟩
  | kind kind _ ih =>
    obtain ⟨held, held', name, same⟩ := ih
    exact ⟨held.kind kind, held'.kind kind, name, rfl, same.value, same.text⟩
  | value value _ ih =>
    obtain ⟨held, held', name, same⟩ := ih
    exact ⟨held.value value, held'.value value, name, same.kind, rfl, same.text⟩
  | text texts _ ih =>
    obtain ⟨held, held', name, same⟩ := ih
    exact ⟨held.text _, held'.text _, name, same.kind, same.value, r.alike texts⟩
  | tree _ ih =>
    obtain ⟨held, held', name, same⟩ := ih
    rw [name_keepTree, name_keepTree, declaration_keepTree, declaration_keepTree]
    exact ⟨held.tree, held'.tree, name, same⟩

end Variable

/-- Lists of variables that are the same but for their spelling are tables that
say the same. -/
theorem ofList_alike {entries entries' : List Variable}
    (relisted : List.Forall₂ (Variable.Relisted r) entries entries') :
    (VariableTable.ofList entries).Alike r.blur (.ofList entries') := by
  have declared : ∀ {m m' : Declarations}, m.Alike r.blur m' →
      Declarations.Alike r.blur
        (entries.foldl
          (fun m v => Function.update m (lower v.name) (some v.declaration)) m)
        (entries'.foldl
          (fun m v => Function.update m (lower v.name) (some v.declaration)) m') := by
    induction relisted with
    | nil => exact id
    | cons first _ ih =>
      intro m m' alike
      obtain ⟨name, same⟩ := first.alike
      rw [List.foldl_cons, List.foldl_cons, name]
      exact ih (alike.update _ (.some same))
  have fresh : (∀ v ∈ entries, v.Fresh) ∧ ∀ w ∈ entries', w.Fresh := by
    clear declared
    induction relisted with
    | nil => exact ⟨nofun, nofun⟩
    | cons first _ ih =>
      obtain ⟨bare, bare'⟩ := first.bare
      exact ⟨List.forall_mem_cons.mpr ⟨Variable.fresh_of_bare bare, ih.1⟩,
        List.forall_mem_cons.mpr ⟨Variable.fresh_of_bare bare', ih.2⟩⟩
  exact ⟨_, _, .ofList fresh.1, .ofList fresh.2, declared Declarations.alike_none⟩

/-- An edit of a table under two spellings leaves tables that say the same. -/
theorem TableEdit.Respelled.apply {edit edit' : TableEdit}
    (respelled : edit.Respelled r edit') {table table' : VariableTable}
    (alike : table.Alike r.blur table') :
    (edit.apply table).Alike r.blur (edit'.apply table') := by
  obtain ⟨m, m', first, second, declared⟩ := id alike
  cases respelled with
  | set respelled =>
    obtain ⟨held, held', name, same⟩ := respelled.alike
    refine ⟨_, _, first.edit held, second.edit held', ?_⟩
    simp only [onMap, name]
    exact declared.update _ (.some same)
  | find lowered =>
    exact ⟨_, _, first.edit lowered, second.edit lowered, declared.declare _⟩
  | setKind kind names =>
    refine ⟨_, _, first.edit trivial, second.edit trivial, ?_⟩
    simp only [onMap, r.lower_eq names]
    exact declared.change _ fun _ _ same => ⟨rfl, same.value, same.text⟩
  | setValue value names =>
    refine ⟨_, _, first.edit trivial, second.edit trivial, ?_⟩
    simp only [onMap, r.lower_eq names]
    exact declared.change _ fun _ _ same => ⟨same.kind, rfl, same.text⟩
  | setText names texts =>
    refine ⟨_, _, first.edit trivial, second.edit trivial, ?_⟩
    simp only [onMap, r.lower_eq names]
    exact declared.change _ fun _ _ same => ⟨same.kind, same.value, r.alike texts⟩
  | remove names =>
    refine ⟨_, _, first.edit trivial, second.edit trivial, ?_⟩
    simp only [onMap, r.lower_eq names]
    exact declared.update _ .none
  | retain names =>
    exact ⟨_, _, first.edit trivial, second.edit trivial, declared.retain names⟩
  | load read read' relisted =>
    simp only [TableEdit.apply, bind_ofJson?, read, read', Option.map_some,
      Option.getD_some]
    exact ofList_alike relisted
  | refused read read' =>
    simp only [TableEdit.apply, bind_ofJson?, read, read', Option.map_none,
      Option.getD_none]
    exact alike
  | translate names lowered =>
    exact alike.translate (map_lower_congr names) lowered

/-- An edit under two spellings leaves formulas that say the same. -/
theorem Edit.Respelled.apply {edit edit' : Edit} (respelled : edit.Respelled r edit')
    {formula formula' : Formula} (alike : Alike r.blur formula formula') :
    Alike r.blur (edit.apply formula) (edit'.apply formula') := by
  cases respelled with
  | source texts => exact { alike with source := r.alike texts }
  | parameters names =>
    exact { alike with parameters := congrArg (List.map lower) (map_lower_congr names) }
  | put respelled =>
    obtain ⟨held, held', name, same⟩ := respelled.alike
    obtain ⟨m, m', first, second, declared⟩ := alike.table
    refine { alike with
      table := ⟨_, _, first.set held.fresh, second.set held'.fresh, ?_⟩ }
    rw [name]
    exact declared.update _ (.some same)
  | table respelled => exact { alike with table := respelled.apply alike.table }
  | tree names =>
    obtain ⟨m, m', first, second, declared⟩ := alike.table
    exact { alike with
      table := ⟨m, m', first.keepTree _, second.keepTree _, declared⟩ }
  | load read read' relisted =>
    simp only [Edit.apply, read, read', Option.getD_some]
    obtain ⟨entries, entries', listed, listed', same⟩ := relisted.table
    refine ⟨r.alike relisted.source, map_lower_congr relisted.parameters, ?_⟩
    rw [listed, listed']
    exact ofList_alike same
  | refused read read' =>
    simp only [Edit.apply, read, read', Option.getD_none]
    exact alike
  | compile => exact alike.compile.2

/-- The same edits under two spellings leave formulas that say the same. -/
theorem alike_ofEdits {edits edits' : List Edit}
    (respelled : List.Forall₂ (Edit.Respelled r) edits edits') :
    Alike r.blur (ofEdits edits) (ofEdits edits') := by
  have all : ∀ {formula formula' : Formula}, Alike r.blur formula formula' →
      Alike r.blur (edits.foldl Edit.apply formula)
        (edits'.foldl Edit.apply formula') := by
    induction respelled with
    | nil => exact id
    | cons first _ ih => exact fun alike => ih (first.apply alike)
  have empty : VariableTable.empty.Alike r.blur .empty :=
    ⟨_, _, represents_empty, represents_empty, Declarations.alike_none⟩
  exact all ⟨rfl, rfl, empty⟩

/-! ## Compiling -/

/-- **Spelling does not matter.** A formula is put together by the same edits
under two spellings. If they differ in letter case, in texts, in names of
parameters or in names of variables that the table folds, it compiles to the same
program with the same used names, or to the same error. If they differ in blanks before, between
and behind the tokens of texts, then so it does but for the places of errors.
The table has the same names afterwards. -/
theorem compile_respelled (edits edits' : List Edit) :
    let formula := ofEdits edits
    let formula' := ofEdits edits'
    (List.Forall₂ (Edit.Respelled .letterCase) edits edits' →
      formula.compile.1 = formula'.compile.1 ∧
      formula.compile.2.table.names = formula'.compile.2.table.names) ∧
    (List.Forall₂ (Edit.Respelled .blanks) edits edits' →
      formula.compile.1.mapError (FormulaError.mapReason .unplaced) =
        formula'.compile.1.mapError (FormulaError.mapReason .unplaced) ∧
      formula.compile.2.table.names = formula'.compile.2.table.names) := by
  intro formula formula'
  constructor
  · intro respelled
    obtain ⟨results, alike⟩ := (alike_ofEdits respelled).compile
    -- under letter case all of an error counts
    have whole (result : Except FormulaError Compiled) :
        result.mapError (FormulaError.mapReason id) = result := by
      rw [FormulaError.mapReason_id]
      cases result <;> rfl
    exact ⟨(whole _).symm.trans (results.trans (whole _)), alike.table.names_eq⟩
  · intro respelled
    obtain ⟨results, alike⟩ := (alike_ofEdits respelled).compile
    exact ⟨results, alike.table.names_eq⟩

/-- A product with letters in different case, and with blanks around its sign. The
table also has a variable that was read by itself, under a name with a capital. -/
theorem compile_respelled_product :
    let read : Variable := ⟨"B", .vector, Vec3.zero, "", none⟩
    let capitals := ofEdits [.put (.float "A" 2.0), .put read, .parameters ["X"],
      .source "A*x"]
    let small := ofEdits [.put (.float "a" 2.0), .put read, .parameters ["x"],
      .source "a*X"]
    let spaced := ofEdits [.put (.float "a" 2.0), .put read, .parameters ["x"],
      .source "a * X"]
    (capitals.compile.1 = small.compile.1 ∧
      capitals.compile.2.table.names = small.compile.2.table.names) ∧
    small.compile.1.mapError (FormulaError.mapReason .unplaced) =
        spaced.compile.1.mapError (FormulaError.mapReason .unplaced) ∧
      small.compile.2.table.names = spaced.compile.2.table.names := by
  have factor : SameLetters "A" "a" := by decide
  have parameter : SameLetters "X" "x" := by decide
  have letters : SameLetters "A*x" "a*X" := by decide
  have capital : SameLetters "B" "B" := by decide
  have blank : SameLetters "" "" := by decide
  have star : readToken '*' ['X'] = .ok ⟨.op .star, ['*'], ['X']⟩ := rfl
  have last : Respaced ['X'] ['X'] :=
    .token rfl (readToken_of_isNameChar (by decide) (by decide) (by decide)) .done
  have sign : Respaced ['*', 'X'] ['*', ' ', 'X'] := .token rfl star (.added rfl last)
  have product : Respaced "a*X".toList "a * X".toList :=
    .token rfl (readToken_of_isNameChar (by decide) (by decide) (by decide))
      (.added rfl sign)
  refine ⟨(compile_respelled _ _).1 ?_, (compile_respelled _ _).2 ?_⟩
  · refine .cons (.put (.made (.float 2.0 factor))) ?_
    refine .cons (.put (.read rfl ⟨capital, rfl, rfl, blank, rfl, rfl⟩)) ?_
    refine .cons (.parameters (.cons parameter .nil)) ?_
    exact .cons (.source letters) .nil
  · refine .cons (.put (.made (.float 2.0 rfl))) ?_
    refine .cons (.put (.read rfl ⟨rfl, rfl, rfl, .inl rfl, rfl, rfl⟩)) ?_
    refine .cons (.parameters (.cons rfl .nil)) ?_
    exact .cons (.source (.inr product)) .nil

/-- Spellings that do matter. A name that is asked for as it is spelled, with a
capital, is not found and put in a second time. A variable that was read by itself
under a name with a capital is not what a text in lower case names. -/
theorem compile_respelled_apart :
    (let small := ofEdits [.table (.set (.named "a")), .table (.find "a")]
     let capital := ofEdits [.table (.set (.named "a")), .table (.find "A")]
     SameLetters "a" "A" ∧
       small.compile.2.table.names ≠ capital.compile.2.table.names) ∧
    let v : Variable := ⟨"s", .vector, Vec3.zero, "", none⟩
    let w : Variable := ⟨"S", .vector, Vec3.zero, "", none⟩
    let small := ofEdits [.put v, .source "s"]
    let capital := ofEdits [.put w, .source "s"]
    v.Held ∧ w.Held ∧ SameLetters v.name w.name ∧
      small.compile.1 ≠ capital.compile.1 := by
  constructor
  · exact ⟨by decide, by decide +kernel⟩
  intro v w small capital
  have held : v.Held := Variable.held_bare "s"
  have held' : w.Held := Variable.held_bare "S"
  have name : parse "s" = .ok (some (.reference "s")) := by
    with_unfolding_all rfl
  have lowered : lower "s" = "s" := by decide +kernel
  have constant : (small.table.meaning "s").kind ≠ .subFormula := by decide +kernel
  have meaning : capital.table.meaning "s" = .implied "s" := by decide +kernel
  obtain ⟨program, compiled⟩ := @compile_constant small "s"
    (VariableTable.sound_empty.set held.fresh) (by decide) name rfl lowered constant
  have failed := @compile_textless capital "s"
    (VariableTable.sound_empty.set held'.fresh) (by decide) name rfl lowered
    (meaning ▸ rfl) (meaning ▸ rfl)
  refine ⟨held, held', by decide, ?_⟩
  rw [compiled, failed]
  nofun
end FieldMesh.Formula
