import FieldMesh.Proofs.Formula.Edits
import FieldMesh.Proofs.Formula.Recompilation
import FieldMesh.Proofs.Json.Values

/-!
# Stored formulas

A formula that is stored comes back without the trees that were kept. If its
names ascend in lower case, it is as it was in all else: storing it again gives
the same text, and it compiles to what it compiled to before. Otherwise its
names come back folded, in order, and each once.

* `stored`: a formula without its trees;
* `reloaded`: the formula that comes back, from any formula (`ofJson?_toJson`).
  `reloaded_eq_stored_iff` says which formulas come back as they were;
* `compile_stored`: whether trees are kept makes no difference;
* **main result**: `stored_loads`.
-/

namespace FieldMesh.Formula

open FieldMesh.Text

/-! ## What comes back -/

/-- A variable without its tree. -/
def Variable.stored (v : Variable) : Variable := { v with kept := none }

/-- A table without trees. -/
def VariableTable.stored (table : VariableTable) : VariableTable :=
  ⟨table.entries.map Variable.stored⟩

/-- A formula without trees. -/
def stored (formula : Formula) : Formula :=
  { formula with table := formula.table.stored }

theorem Variable.stored_keepTree (v : Variable) :
    v.keepTree.stored = v.stored := by
  unfold keepTree
  split <;> rfl

theorem Variable.fresh_stored (v : Variable) : v.stored.Fresh := by
  intro tree kept
  cases kept

theorem VariableTable.stored_stored (table : VariableTable) :
    table.stored.stored = table.stored := by
  unfold stored
  rw [List.map_map]
  rfl

theorem stored_stored (formula : Formula) : formula.stored.stored = formula.stored :=
  congrArg (fun table => { formula with table }) formula.table.stored_stored

/-- Nothing is lost where no tree is kept. -/
theorem VariableTable.stored_eq_self {table : VariableTable}
    (bare : ∀ v ∈ table.entries, v.kept = none) : table.stored = table := by
  have same : ∀ v ∈ table.entries, v.stored = v := by
    intro v member
    rw [Variable.stored, ← bare v member]
  rw [stored, List.map_congr_left same, List.map_id']

/-- What comes back of a formula: its variables are put in one after the other,
under their names in lower case, and without trees. -/
def reloaded (formula : Formula) : Formula :=
  { formula with table := .ofList formula.table.stored.entries }

/-- The names of the variables are in lower case. -/
def FoldedNames (formula : Formula) : Prop :=
  ∀ v ∈ formula.table.entries, v.Folded

/-- Documents have no trees. -/
theorem toJson_stored (formula : Formula) : formula.stored.toJson = formula.toJson := by
  have entries : formula.stored.table.toJson = formula.table.toJson := by
    rw [VariableTable.toJson, VariableTable.toJson, stored, VariableTable.stored,
      List.map_map]
    rfl
  rw [toJson, toJson, entries]
  rfl

/-! ## Comparing -/

/-- A finite number equals itself. -/
theorem beq_self_of_isFinite {x : Float32} (finite : x.isFinite = true) :
    (x == x) = true := by
  have order : x.toModel.unpack.compare x.toModel.unpack = some .eq := by
    have unpacked : x.toModel.unpack.isFinite = true := finite
    revert unpacked
    cases x.toModel.unpack with
    | notANumber => exact nofun
    | infinity sign => exact nofun
    | zero sign => exact fun _ => rfl
    | finite sign mantissa exponent positive =>
      intro _
      have magnitudes : (compare exponent exponent).then
          (compare mantissa mantissa) = .eq := by
        rw [Int.compare_eq_eq.mpr rfl, Nat.compare_eq_eq.mpr rfl]
        rfl
      cases sign with
      | negative => exact congrArg (fun order => some order.swap) magnitudes
      | positive => exact congrArg some magnitudes
  show (x.toModel.unpack.compare x.toModel.unpack == some .eq) = true
  rw [order]
  rfl

/-- A finite vector equals itself. -/
theorem sameNumbers_self {v : Vec3} (finite : v.isFinite = true) :
    v.sameNumbers v = true := by
  have each : ∀ x ∈ [v.x, v.y, v.z], (x == x) = true := fun x place =>
    beq_self_of_isFinite (Json.isFinite_of_mem finite x place)
  simp only [List.forall_mem_cons] at each
  simp [Vec3.sameNumbers, each]

/-- The formula that comes back says the same, if its vectors are finite. -/
theorem same_stored {formula : Formula}
    (finite : ∀ v ∈ formula.table.entries, v.value.isFinite = true) :
    formula.same formula.stored = true := by
  have entries : ∀ pair ∈ formula.table.entries.zip formula.stored.table.entries,
      pair.1.same pair.2 = true := by
    intro pair member
    have pairs : formula.table.entries.zip formula.stored.table.entries =
        formula.table.entries.map fun v => (v, v.stored) := by
      have zipped : (formula.table.entries.map id).zip
          (formula.table.entries.map Variable.stored) = _ := List.zip_map'
      rwa [List.map_id] at zipped
    rw [pairs] at member
    obtain ⟨v, inside, rfl⟩ := List.mem_map.mp member
    simp [Variable.same, Variable.stored, sameNumbers_self (finite v inside)]
  have size : formula.stored.table.size = formula.table.size := List.length_map _
  have table : formula.table.same formula.stored.table = true := by
    simp only [VariableTable.same, Bool.and_eq_true, List.all_eq_true]
    exact ⟨by simp [size], fun pair member => entries pair member⟩
  simp [same, table]
  simp [stored]

/-! ## Tables that are put together again -/

namespace VariableTable

variable {table : VariableTable}

/-- A variable whose name comes after all others goes to the end. -/
theorem set_last (ascending : table.Ascending) {v : Variable}
    (last : ∀ w ∈ table.entries, w.name < v.name) :
    table.set v = ⟨table.entries ++ [v]⟩ := by
  unfold set
  split
  · next i found =>
    obtain ⟨w, -, entry, called⟩ := find?_of_found found
    have below := last w (List.mem_of_getElem? entry)
    rw [called] at below
    exact absurd below (String.lt_irrefl _)
  · next i missing =>
    obtain ⟨inside, around⟩ := gap_of_search ascending missing
    have atEnd : i = table.entries.length := by
      refine Nat.le_antisymm inside (Nat.le_of_not_lt fun before => ?_)
      have entry := List.getElem?_eq_getElem before
      have above := (around i _ entry).2 (Nat.le_refl i)
      exact String.lt_irrefl _
        (String.lt_trans above (last _ (List.mem_of_getElem? entry)))
    rw [atEnd, List.insertIdx_length_self]

/-- The entries of a table make up that table. -/
theorem ofList_entries (ascending : table.Ascending)
    (lowered : ∀ v ∈ table.entries, v.Folded) :
    ofList table.entries = table := by
  have all : ∀ rest done : List Variable, Ascending ⟨done ++ rest⟩ →
      (∀ v ∈ rest, v.Folded) →
      rest.foldl (fun (t : VariableTable) v => t.set { v with name := lower v.name })
        ⟨done⟩ = ⟨done ++ rest⟩ := by
    intro rest
    induction rest with
    | nil => simp
    | cons v rest ih =>
      intro done ascending lowered
      obtain ⟨first, others⟩ := List.forall_mem_cons.mp lowered
      have same : ({ v with name := lower v.name } : Variable) = v := by
        rw [show lower v.name = v.name from first]
      obtain ⟨front, -, across⟩ := List.pairwise_append.mp ascending
      have last : set ⟨done⟩ v = ⟨done ++ [v]⟩ := set_last front fun w member =>
        across w member v List.mem_cons_self
      have whole : done ++ v :: rest = (done ++ [v]) ++ rest := by simp
      rw [List.foldl_cons, same, last, whole]
      exact ih (done ++ [v]) (whole ▸ ascending) others
  exact all table.entries [] ascending lowered

theorem ascending_stored : table.stored.Ascending ↔ table.Ascending :=
  List.pairwise_map

theorem find?_stored (ascending : table.Ascending) (name : String) :
    table.stored.find? name = (table.find? name).map Variable.stored := by
  have ascending' := ascending_stored.mpr ascending
  refine Option.ext fun v => ?_
  rw [find?_eq_some_iff ascending', Option.map_eq_some_iff]
  constructor
  · rintro ⟨member, named⟩
    obtain ⟨w, inside, rfl⟩ := List.mem_map.mp member
    exact ⟨w, (find?_eq_some_iff ascending).mpr ⟨inside, named⟩, rfl⟩
  · rintro ⟨w, found, rfl⟩
    obtain ⟨inside, named⟩ := (find?_eq_some_iff ascending).mp found
    exact ⟨List.mem_map_of_mem inside, named⟩

theorem Sound.stored (sound : table.Sound) : table.stored.Sound where
  ascending := ascending_stored.mpr sound.ascending
  fresh v member := by
    obtain ⟨w, -, rfl⟩ := List.mem_map.mp member
    exact w.fresh_stored

/-- No tree is needed to know what a name stands for. -/
theorem meaning_stored (ascending : table.Ascending) (name : String) :
    table.stored.meaning name = table.meaning name := by
  rw [meaning, declaration?, find?_stored ascending, Option.map_map]
  rfl

/-- What is learned from a log does not depend on kept trees. -/
theorem learn_stored (sound : table.Sound) {log : Log}
    (lowered : ∀ name ∈ log.used, lower name = name) :
    (table.stored.learn log).stored = (table.learn log).stored := by
  obtain ⟨sound', found⟩ := find?_learn sound lowered
  obtain ⟨sound'', found'⟩ := find?_learn sound.stored lowered
  refine sound''.stored.ascending.ext sound'.stored.ascending fun name => ?_
  rw [find?_stored sound''.ascending, find?_stored sound'.ascending, found, found',
    find?_stored sound.ascending]
  have kept (v : Option Variable) :
      (v.map Variable.keepTree).map Variable.stored = v.map Variable.stored := by
    rw [Option.map_map]
    exact congrArg (Option.map · v) (funext Variable.stored_keepTree)
  have twice (v : Option Variable) :
      (v.map Variable.stored).map Variable.stored = v.map Variable.stored := by
    rw [Option.map_map]
    rfl
  -- a name that is met gets an entry, which has no tree in either table
  have declared : ∀ v : Option Variable,
      Option.map Variable.stored
          (if name ∈ log.used then some ((v.map Variable.stored).getD (.named name))
            else v.map Variable.stored) =
        Option.map Variable.stored
          (if name ∈ log.used then some (v.getD (.named name)) else v) := by
    intro v
    split
    · cases v <;> rfl
    · exact twice v
  simp only
  split
  · rw [kept, kept, declared]
  · exact declared _

end VariableTable

/-! ## Compiling what comes back -/

/-- The table that a translation leaves. -/
theorem table_of_translate (table : VariableTable) (parameters : List String)
    (e : Expr) : (translate table parameters e).2 =
      if 256 < parameters.length then table
      else table.learn (translationLog table parameters e) := by
  unfold translate
  split <;> rfl

/-- **Kept trees make no difference.** The formula that comes back compiles to
the same, and declares the same on the way. -/
theorem compile_stored {formula : Formula} (sound : formula.table.Sound) :
    formula.stored.compile.1 = formula.compile.1 ∧
      formula.stored.compile.2.stored = formula.compile.2.stored := by
  have source : formula.stored.source = formula.source := rfl
  rcases read : parse formula.source with reason | _ | e
  · have failed : formula.compile = (.error (.parse reason), formula) := by
      rw [compile, read]
    have failed' : formula.stored.compile = (.error (.parse reason), formula.stored) := by
      rw [compile, source, read]
    rw [failed, failed']
    exact ⟨rfl, formula.stored_stored⟩
  · have blank : formula.compile = (.ok ⟨.constant Vec3.zero, []⟩, formula) := by
      rw [compile, read]
    have blank' : formula.stored.compile =
        (.ok ⟨.constant Vec3.zero, []⟩, formula.stored) := by
      rw [compile, source, read]
    rw [blank, blank']
    exact ⟨rfl, formula.stored_stored⟩
  · -- a translation sees a table only through what the used names stand for
    have lowered := lowered_of_parse read
    have read' : parse formula.stored.source = .ok (some e) := read
    have agree : ∀ name ∈ (translationLog formula.table formula.parameters e).used,
        formula.table.stored.meaning name = formula.table.meaning name :=
      fun name _ => VariableTable.meaning_stored sound.ascending name
    obtain ⟨result, log⟩ := translate_congr sound sound.stored lowered agree
    rw [compile_tree read, compile_tree read']
    refine ⟨congrArg assemble result, ?_⟩
    have table : (translate formula.table.stored formula.parameters e).2.stored =
        (translate formula.table formula.parameters e).2.stored := by
      rw [table_of_translate, table_of_translate, log]
      split
      · exact formula.table.stored_stored
      · exact VariableTable.learn_stored sound
          (lowered_used formula.parameters sound lowered)
    exact congrArg (fun table => { formula with table }) table

/-! ## Documents of formulas -/

/-- The numbers of the variables are finite. -/
def FiniteValues (formula : Formula) : Prop :=
  ∀ v ∈ formula.table.entries, v.value.isFinite = true

/-- Those of its numbers that are finite are decoded as what they are. -/
def NumbersReadBack (formula : Formula) : Prop :=
  ∀ v ∈ formula.table.entries, ∀ x ∈ [v.value.x, v.value.y, v.value.z],
    x.isFinite = true → Json.ReadsBack x

/-- A variable is decoded without its tree. -/
theorem Variable.ofJson?_toJson {v : Variable}
    (reads : ∀ x ∈ [v.value.x, v.value.y, v.value.z], Json.ReadsBack x) :
    Variable.ofJson? v.toJson = some v.stored := by
  have value : Json.vector? (.ofVector v.value) = some v.value :=
    Json.vector?_ofVector reads
  have kind : VariableKind.ofDocumentName? v.kind.documentName = some v.kind :=
    VariableKind.ofDocumentName?_documentName v.kind
  have choice : Json.choice? (.ofText v.kind.documentName) =
      some v.kind.documentName := rfl
  have text (s : String) : Json.text? (.ofText s) = some s := rfl
  rw [ofJson?, toJson, Json.members?_ofFields (by simp)]
  simp [List.lookup_cons, Json.required, Json.optional, value, choice, kind, text]
  rfl

/-- From its document a formula is decoded as what comes back of it. -/
theorem ofJson?_toJson {formula : Formula} (finite : formula.FiniteValues)
    (readBack : formula.NumbersReadBack) :
    ofJson? formula.toJson = some formula.reloaded := by
  have entries : Json.list? Variable.ofJson? formula.table.toJson =
      some formula.table.stored.entries :=
    Json.mapM_map_eq_some fun v member => v.ofJson?_toJson fun x place =>
      readBack v member x place
        (Json.isFinite_of_mem (finite v member) x place)
  have table : VariableTable.ofJson? formula.table.toJson =
      some formula.reloaded.table := by
    rw [VariableTable.ofJson?, entries, Option.map_some, reloaded]
  have parameters : Json.list? Json.text?
      (.list (formula.parameters.map .ofText)) = some formula.parameters := by
    have read : (formula.parameters.map Json.ofText).mapM Json.text? =
        some (formula.parameters.map id) := Json.mapM_map_eq_some fun _ _ => rfl
    rwa [List.map_id] at read
  have text (s : String) : Json.text? (.ofText s) = some s := rfl
  rw [ofJson?, toJson, Json.members?_ofFields (by simp)]
  simp [List.lookup_cons, Json.required, Json.optional, table, parameters, text]
  rfl

/-- A formula comes back as it was, but for its trees, exactly if its names ascend
in lower case. -/
theorem reloaded_eq_stored_iff {formula : Formula} :
    formula.reloaded = formula.stored ↔
      formula.table.Ascending ∧ formula.FoldedNames := by
  constructor
  · intro same
    have tables : VariableTable.ofList formula.table.stored.entries =
        formula.table.stored := congrArg table same
    have bare : ∀ v ∈ formula.table.stored.entries, v.Fresh := by
      intro v member
      obtain ⟨w, -, rfl⟩ := List.mem_map.mp member
      exact w.fresh_stored
    have listed := Represents.ofList bare
    have folded (v : Variable) (member : v ∈ formula.table.entries) :
        v.stored.Folded := by
      refine listed.folded_of_mem (Declarations.folded_ofList _) ?_
      rw [tables]
      exact List.mem_map_of_mem member
    exact ⟨VariableTable.ascending_stored.mp (tables ▸ listed.sound.ascending), folded⟩
  · rintro ⟨ascending, folded⟩
    have again := VariableTable.ofList_entries
      (VariableTable.ascending_stored.mpr ascending) fun v member => by
        obtain ⟨w, inside, rfl⟩ := List.mem_map.mp member
        exact folded w inside
    rw [reloaded, again, stored]

theorem readable_toJson (formula : Formula) : formula.toJson.Readable := by
  refine Json.readable_ofFields fun field member => ?_
  simp only [List.mem_cons, List.not_mem_nil, or_false] at member
  rcases member with rfl | rfl | rfl
  · exact Json.readable_ofText _
  · refine Json.readableItems_iff.mpr fun item inside => ?_
    obtain ⟨name, -, rfl⟩ := List.mem_map.mp inside
    exact Json.readable_ofText name
  · refine Json.readableItems_iff.mpr fun item inside => ?_
    obtain ⟨v, -, rfl⟩ := List.mem_map.mp inside
    refine Json.readable_ofFields fun field member => ?_
    simp only [List.mem_cons, List.not_mem_nil, or_false] at member
    rcases member with rfl | rfl | rfl | rfl
    · exact Json.readable_ofText _
    · exact Json.readable_ofText _
    · exact Json.readable_ofVector _
    · exact Json.readable_ofText _

/-! ## Storing and loading -/

/-- Both texts of a document, with and without blanks, give a formula. -/
def LoadsAs (document : Json) (formula : Formula) : Prop :=
  ofText? document.compact = some formula ∧ ofText? document.pretty = some formula

theorem loadsAs_of_decoded {document : Json} {formula : Formula}
    (readable : document.Readable) (decoded : ofJson? document = some formula) :
    LoadsAs document formula := by
  have read {text : String} (whole : Json.read text = some (document, true)) :
      ofText? text = some formula := by
    rw [ofText?, Json.read?, whole]
    exact decoded
  exact ⟨read (Json.read_compact readable), read (Json.read_pretty readable)⟩

/-- The variables of a list have no trees in the table either. -/
theorem VariableTable.kept_ofList {entries : List Variable}
    (bare : ∀ v ∈ entries, v.kept = none) :
    ∀ v ∈ (ofList entries).entries, v.kept = none := by
  have set (table : VariableTable) (v : Variable) (bare : v.kept = none)
      (others : ∀ w ∈ table.entries, w.kept = none) :
      ∀ w ∈ (table.set v).entries, w.kept = none := by
    intro w member
    unfold VariableTable.set at member
    split at member
    · rcases List.mem_or_eq_of_mem_set member with inside | rfl
      · exact others w inside
      · exact bare
    · rcases List.eq_or_mem_of_mem_insertIdx member with rfl | inside
      · exact bare
      · exact others w inside
  have all : ∀ entries : List Variable, (∀ v ∈ entries, v.kept = none) →
      ∀ table : VariableTable, (∀ w ∈ table.entries, w.kept = none) →
        ∀ w ∈ (entries.foldl (fun (t : VariableTable) v =>
          t.set { v with name := lower v.name }) table).entries, w.kept = none := by
    intro entries
    induction entries with
    | nil => exact fun _ _ inside => inside
    | cons v rest ih =>
      intro bare table inside
      obtain ⟨first, others⟩ := List.forall_mem_cons.mp bare
      exact ih others _ (set table _ first inside)
  exact all entries bare empty nofun

/-- A formula that was read from a text has no trees. -/
theorem stored_of_ofText? {text : String} {formula : Formula}
    (read : ofText? text = some formula) : formula.stored = formula := by
  obtain ⟨j, -, decoded⟩ := Option.bind_eq_some_iff.mp read
  obtain ⟨entries, bare, made⟩ := table_of_ofJson? decoded
  have treeless := made ▸ VariableTable.kept_ofList bare
  exact congrArg (fun table => { formula with table })
    (VariableTable.stored_eq_self treeless)

/-- The text of a formula with finite vectors gives what comes back of it. -/
theorem loadsAs_reloaded {formula : Formula} (finite : formula.FiniteValues)
    (readBack : formula.NumbersReadBack) : LoadsAs formula.toJson formula.reloaded :=
  loadsAs_of_decoded (readable_toJson formula) (ofJson?_toJson finite readBack)

/-- A formula that came about by edits comes back as it was, without its trees, if
its names are in lower case. -/
theorem loadsAs_stored {edits : List Edit} (proper : ∀ edit ∈ edits, edit.Proper)
    (folded : (ofEdits edits).FoldedNames) (finite : (ofEdits edits).FiniteValues)
    (readBack : (ofEdits edits).NumbersReadBack) :
    LoadsAs (ofEdits edits).toJson (ofEdits edits).stored := by
  obtain ⟨m, represents⟩ := represents_ofEdits proper
  have same := reloaded_eq_stored_iff.mpr ⟨represents.sound.ascending, folded⟩
  exact same ▸ loadsAs_reloaded finite readBack

/-- **Storing and loading.** The names of a formula, however it came about, are in
lower case if those of the variables that were put in are. With such names and
finite vectors, it is stored as texts that are read back as that formula without
its trees. This one says the same, has the same document and compiles to the same,
and then the tables are the same again but for trees. Whatever text is read as a
formula with finite vectors, that formula is stored as texts that are read back as
it is. -/
theorem stored_loads :
    (∀ edits : List Edit, (∀ edit ∈ edits, edit.Proper) →
      let formula := ofEdits edits
      ((∀ edit ∈ edits, edit.Folded) → formula.FoldedNames) ∧
      (formula.FoldedNames → formula.FiniteValues → formula.NumbersReadBack →
        LoadsAs formula.toJson formula.stored ∧
        (∀ name, extension? name = some "json" →
          ofFile name formula.fileText = .ok formula.stored) ∧
        formula.same formula.stored = true ∧
        formula.stored.toJson = formula.toJson ∧
        formula.stored.compile.1 = formula.compile.1 ∧
        formula.stored.compile.2.stored = formula.compile.2.stored)) ∧
    ∀ text formula, ofText? text = some formula →
      formula.FiniteValues → formula.NumbersReadBack →
        LoadsAs formula.toJson formula := by
  constructor
  · intro edits proper formula
    refine ⟨folded_ofEdits proper, fun folded finite readBack => ?_⟩
    obtain ⟨m, represents⟩ := represents_ofEdits proper
    have loads := loadsAs_stored proper folded finite readBack
    obtain ⟨outcome, tables⟩ := compile_stored represents.sound
    refine ⟨loads, fun name extension => ?_, same_stored finite,
      formula.toJson_stored, outcome, tables⟩
    have file : (Json.read? formula.fileText).bind ofJson? = some formula.stored :=
      loads.2
    rw [ofFile, if_pos extension, file]
  · intro text formula read finite readBack
    have edited : ofEdits [.load text] = formula := by
      simp only [ofEdits, List.foldl_cons, List.foldl_nil, Edit.apply, read,
        Option.getD_some]
    have proper : ∀ edit ∈ [Edit.load text], edit.Proper ∧ edit.Folded := by
      intro edit member
      cases List.mem_singleton.mp member
      exact ⟨trivial, trivial⟩
    have folded := folded_ofEdits (fun edit member => (proper edit member).1)
      fun edit member => (proper edit member).2
    have loads := loadsAs_stored (fun edit member => (proper edit member).1) folded
      (edited ▸ finite) (edited ▸ readBack)
    rwa [edited, stored_of_ofText? read] at loads

/-- A negative zero in a variable that was put in under another spelling, and a
variable that was read by itself, whose name is in lower case. -/
theorem stored_loads_negativeZero :
    let read : Variable := ⟨"g", .vector, Vec3.zero, "", none⟩
    let formula := ofEdits [.source "F + g", .parameters ["P"],
      .put (.float "F" (-0.0)), .put read]
    LoadsAs formula.toJson formula.stored ∧
      formula.stored.compile.1 = formula.compile.1 ∧
      LoadsAs formula.stored.toJson formula.stored := by
  intro read formula
  have table : formula.table = ⟨[.float "F" (-0.0), read]⟩ := by
    have first : VariableTable.empty.set (.float "F" (-0.0)) =
        ⟨[.float "F" (-0.0)]⟩ :=
      VariableTable.set_last VariableTable.sound_empty.ascending nofun
    show (VariableTable.empty.set (.float "F" (-0.0))).set read = _
    rw [first]
    refine VariableTable.set_last (List.pairwise_singleton _ _) fun v member => ?_
    cases List.mem_singleton.mp member
    decide +kernel
  have digits : ∀ x ∈ [(-0.0 : Float32), 0.0, 0.0], x.isFinite = true ∧
      ∃ negative d, x = Json.digitValue negative d := by
    decide +kernel
  have values : ∀ v ∈ formula.table.entries, ∀ x ∈ [v.value.x, v.value.y, v.value.z],
      x ∈ [(-0.0 : Float32), 0.0, 0.0] := by
    intro v member x place
    rw [table] at member
    rcases List.mem_pair.mp member with rfl | rfl
    · exact place
    · have zero : x ∈ [(0.0 : Float32), 0.0, 0.0] := place
      exact List.mem_cons_of_mem _ (by simpa using zero)
  have finite : formula.FiniteValues := by
    rw [FiniteValues, table]
    decide +kernel
  have readBack : formula.NumbersReadBack := by
    intro v member x place _
    obtain ⟨-, negative, d, rfl⟩ := digits x (values v member x place)
    exact Json.readsBack_digitValue negative d
  have float := Variable.Made.float "F" (-0.0)
  have lowered : read.Folded := by
    show lower "g" = "g"
    decide +kernel
  have proper : ∀ edit ∈ [Edit.source "F + g", .parameters ["P"],
      .put (.float "F" (-0.0)), .put read], edit.Proper := by
    simp only [List.forall_mem_cons]
    exact ⟨trivial, trivial, .made float, Variable.held_bare "g", nofun⟩
  have keeps : ∀ edit ∈ [Edit.source "F + g", .parameters ["P"],
      .put (.float "F" (-0.0)), .put read], edit.Folded := by
    simp only [List.forall_mem_cons]
    exact ⟨trivial, trivial, float.folded, lowered, nofun⟩
  obtain ⟨folded, comesBack⟩ := stored_loads.1 _ proper
  obtain ⟨loads, -, -, -, outcome, -⟩ := comesBack (folded keeps) finite readBack
  refine ⟨loads, outcome, ?_⟩
  have finite' : formula.stored.FiniteValues := by
    intro v member
    obtain ⟨w, inside, rfl⟩ := List.mem_map.mp member
    exact finite w inside
  have readBack' : formula.stored.NumbersReadBack := by
    intro v member
    obtain ⟨w, inside, rfl⟩ := List.mem_map.mp member
    exact readBack w inside
  exact stored_loads.2 _ _ loads.1 finite' readBack'

/-- Zeros are finite and are read back. -/
theorem reads_of_zero {formula : Formula}
    (zero : ∀ v ∈ formula.table.entries, v.value = Vec3.zero) :
    formula.FiniteValues ∧ formula.NumbersReadBack := by
  have digit : (0.0 : Float32) = Json.digitValue false 0 := by decide +kernel
  refine ⟨fun v member => ?_, fun v member x place _ => ?_⟩
  · rw [zero v member]
    decide +kernel
  · rw [zero v member] at place
    have place : x ∈ [(0.0 : Float32), 0.0, 0.0] := place
    obtain rfl : x = 0.0 := by simpa using place
    rw [digit]
    exact Json.readsBack_digitValue false 0

/-- What does not come back as it was. A name that is asked for as it is spelled,
with a capital, is put in a second time, and comes back once. A variable that was
read by itself keeps its capital, and comes back under the name in lower case; a
text that uses this name is not compiled before, but is compiled afterwards. -/
theorem reloaded_apart :
    (let twice := ofEdits [.table (.find "b"), .table (.find "B")]
     twice.FiniteValues ∧ twice.NumbersReadBack ∧
       LoadsAs twice.toJson twice.reloaded ∧
       twice.same twice.reloaded = false) ∧
    let read : Variable := ⟨"S", .vector, Vec3.zero, "", none⟩
    let spelled := ofEdits [.put read, .source "s"]
    read.Held ∧ spelled.FiniteValues ∧ spelled.NumbersReadBack ∧
      LoadsAs spelled.toJson spelled.reloaded ∧
      spelled.same spelled.reloaded = false ∧
      spelled.compile.1 = .error (.compile (.emptySubFormula "s")) ∧
      ∃ compiled, spelled.reloaded.compile.1 = .ok compiled := by
  constructor
  · intro twice
    have zero : ∀ v ∈ twice.table.entries, v.value = Vec3.zero := by decide +kernel
    obtain ⟨finite, readBack⟩ := reads_of_zero zero
    exact ⟨finite, readBack, loadsAs_reloaded finite readBack, by decide +kernel⟩
  intro read spelled
  have zero : ∀ v ∈ spelled.table.entries, v.value = Vec3.zero := by decide +kernel
  obtain ⟨finite, readBack⟩ := reads_of_zero zero
  have held : read.Held := Variable.held_bare "S"
  have sound : spelled.table.Sound := VariableTable.sound_empty.set held.fresh
  have lowered : lower "s" = "s" := by decide +kernel
  have name : parse "s" = .ok (some (.reference "s")) := by
    with_unfolding_all rfl
  refine ⟨held, finite, readBack, loadsAs_reloaded finite readBack,
    by decide +kernel, ?_, ?_⟩
  · have meaning : spelled.table.meaning "s" = .implied "s" := by decide +kernel
    rw [@compile_textless spelled "s" sound (by decide) name rfl lowered
      (meaning ▸ rfl) (meaning ▸ rfl)]
  · have sound' : spelled.reloaded.table.Sound :=
      VariableTable.sound_ofList fun v member => by
        obtain ⟨w, -, rfl⟩ := List.mem_map.mp member
        exact w.fresh_stored
    have constant : (spelled.reloaded.table.meaning "s").kind ≠ .subFormula := by
      decide +kernel
    obtain ⟨program, compiled⟩ := @compile_constant spelled.reloaded "s" sound'
      (by decide) name rfl lowered constant
    exact ⟨_, compiled⟩

end FieldMesh.Formula
