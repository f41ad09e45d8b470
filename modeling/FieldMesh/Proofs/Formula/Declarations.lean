import Mathlib.Data.List.Nodup
import Mathlib.Data.List.Sort
import FieldMesh.Proofs.Formula.Lookup
import FieldMesh.Proofs.Text.Folding

/-!
# What tables declare

Seen from outside, a table is a map from names to declarations. Here is what
a search finds after each of the changes that tables go through.

* `Declaration`: what a variable says of its name, apart from a kept tree;
* `VariableTable.meaning`: what a name stands for, declared or not;
* `find?_set`, `find?_findOrInsert`, `find?_modify?`, `find?_remove?`,
  `find?_retain`, `find?_keepTree`: the changes, one name at a time.
-/

namespace FieldMesh.Formula

open FieldMesh.Text

/-! ## Declarations -/

/-- What a variable says of its name. -/
structure Declaration where
  kind : VariableKind
  value : Vec3
  text : String
  deriving DecidableEq

/-- What a name says by itself: a number, a sub-formula or a vector by its first
letter, of value zero and without a text. -/
def Declaration.implied (name : String) : Declaration :=
  ⟨.byInitial name, Vec3.zero, ""⟩

/-- What a variable says of its name. Whether its tree is kept makes no
difference. -/
def Variable.declaration (v : Variable) : Declaration := ⟨v.kind, v.value, v.text⟩

theorem Variable.declaration_named {name : String} (lowered : lower name = name) :
    (named name).declaration = .implied name := by
  rw [named_eq_implied, lowered]
  rfl

theorem Variable.declaration_keepTree (v : Variable) :
    v.keepTree.declaration = v.declaration := by
  unfold keepTree
  split <;> rfl

theorem Variable.name_keepTree (v : Variable) : v.keepTree.name = v.name := by
  unfold keepTree
  split <;> rfl

namespace VariableTable

/-- What a table declares a name to be, if it does. -/
def declaration? (table : VariableTable) (name : String) : Option Declaration :=
  (table.find? name).map Variable.declaration

/-- What a name stands for: what the table declares, or what the name says by
itself. -/
def meaning (table : VariableTable) (name : String) : Declaration :=
  (table.declaration? name).getD (.implied name)

/-! ## Searching by places -/

variable {table : VariableTable}

theorem find?_of_found {name : String} {i : Nat}
    (found : table.search name = .found i) :
    ∃ v, table.find? name = some v ∧ table.entries[i]? = some v ∧
      v.name = name := by
  obtain ⟨v, entry, named⟩ := name_of_search found
  refine ⟨v, ?_, entry, named⟩
  rw [find?, found]
  exact entry

theorem find?_of_gap {name : String} {i : Nat}
    (missing : table.search name = .gap i) : table.find? name = none := by
  rw [find?, missing]

theorem find?_empty (name : String) : empty.find? name = none :=
  (find?_eq_none_iff sound_empty.ascending).mpr fun _ member =>
    absurd member List.not_mem_nil

/-- What a search finds, if it is known which variables are there. -/
theorem find?_eq_of_mem (ascending : table.Ascending) {name : String}
    {found : Option Variable}
    (mem : ∀ v, v.name = name → (v ∈ table.entries ↔ found = some v))
    (named : ∀ v, found = some v → v.name = name) :
    table.find? name = found := by
  refine Option.ext fun v => ?_
  rw [find?_eq_some_iff ascending]
  constructor
  · rintro ⟨member, same⟩
    exact (mem v same).mp member
  · intro same
    exact ⟨(mem v (named v same)).mpr same, named v same⟩

/-- Tables in which the same is found are the same. -/
theorem Ascending.ext {other : VariableTable}
    (ascending : table.Ascending) (ascending' : other.Ascending)
    (found : ∀ name, table.find? name = other.find? name) : table = other := by
  have distinct {t : VariableTable} (ascending : t.Ascending) : t.entries.Nodup := by
    refine ascending.imp fun {v w} below same => ?_
    rw [same] at below
    exact String.lt_irrefl _ below
  have members (v : Variable) : v ∈ table.entries ↔ v ∈ other.entries := by
    have first : table.find? v.name = some v ↔ _ := find?_eq_some_iff ascending
    have second : other.find? v.name = some v ↔ _ := find?_eq_some_iff ascending'
    rw [found v.name] at first
    simpa using first.symm.trans second
  have permuted := (List.perm_ext_iff_of_nodup (distinct ascending)
    (distinct ascending')).mpr members
  have entries := permuted.eq_of_pairwise (fun v w _ _ below above =>
    absurd (String.lt_trans below above) (String.lt_irrefl _)) ascending ascending'
  cases table
  cases other
  exact congrArg mk entries

/-- The one place of a name. -/
theorem Ascending.place_unique (ascending : table.Ascending) {i j : Nat}
    {v w : Variable} (first : table.entries[i]? = some v)
    (second : table.entries[j]? = some w) (same : v.name = w.name) : i = j := by
  rcases Nat.lt_trichotomy i j with before | equal | after
  · have apart := ascending.name_lt before first second
    rw [same] at apart
    exact absurd apart (String.lt_irrefl _)
  · exact equal
  · have apart := ascending.name_lt after second first
    rw [same] at apart
    exact absurd apart (String.lt_irrefl _)

/-! ## After changes -/

/-- A new variable is found under its name, and changes nothing else. -/
theorem find?_insert (sound : table.Sound) {v : Variable} {i : Nat}
    (missing : table.search v.name = .gap i) (fresh : v.Fresh) (name : String) :
    find? ⟨table.entries.insertIdx i v⟩ name =
      if name = v.name then some v else table.find? name := by
  have inside := (gap_of_search sound.ascending missing).1
  refine find?_eq_of_mem (sound.insert fresh missing).ascending
    (fun w named => ?_) fun w found => ?_
  · rw [List.mem_insertIdx inside]
    split
    · next same =>
      have absent := (find?_eq_none_iff sound.ascending).mp (find?_of_gap missing)
      rw [Option.some.injEq, eq_comm (a := v)]
      refine or_iff_left fun member => absent w member ?_
      rw [named, same]
    · next other =>
      rw [find?_eq_some_iff sound.ascending]
      constructor
      · rintro (rfl | member)
        · exact absurd named.symm other
        · exact ⟨member, named⟩
      · exact fun found => .inr found.1
  · split at found
    · next same =>
      cases found
      exact same.symm
    · exact (find?_some found).2

/-- A variable in the place of one of its name is found instead of it. -/
theorem find?_replace (ascending : table.Ascending) {i : Nat} {v w : Variable}
    (entry : table.entries[i]? = some w) (same : v.name = w.name)
    (name : String) :
    find? ⟨table.entries.set i v⟩ name =
      if name = v.name then some v else table.find? name := by
  obtain ⟨inside, -⟩ := List.getElem?_eq_some_iff.mp entry
  refine find?_eq_of_mem (ascending.replace entry same)
    (fun u called => ?_) fun u found => ?_
  · rw [List.mem_iff_getElem?]
    simp only [List.getElem?_set, inside, if_true]
    split
    · next here =>
      constructor
      · rintro ⟨j, there⟩
        split at there
        · exact there
        · next apart =>
          -- no other place has this name
          refine absurd (ascending.place_unique entry there ?_) apart
          rw [← same, ← here, called]
      · intro equal
        exact ⟨i, by rw [if_pos rfl, equal]⟩
    · next elsewhere =>
      have apart : u.name ≠ v.name := called ▸ elsewhere
      rw [find?_eq_some_iff ascending, List.mem_iff_getElem?]
      constructor
      · rintro ⟨j, there⟩
        split at there
        · cases there
          exact absurd rfl apart
        · exact ⟨⟨j, there⟩, called⟩
      · rintro ⟨⟨j, there⟩, -⟩
        refine ⟨j, ?_⟩
        rw [if_neg, there]
        rintro rfl
        rw [entry] at there
        cases there
        exact apart same.symm
  · split at found
    · next here =>
      cases found
      exact here.symm
    · exact (find?_some found).2

/-- The last variable that was put in under a name is found. -/
theorem find?_set (sound : table.Sound) {v : Variable} (fresh : v.Fresh)
    (name : String) :
    (table.set v).find? name =
      if name = v.name then some v else table.find? name := by
  unfold VariableTable.set
  split
  · next i found =>
    obtain ⟨w, -, entry, called⟩ := find?_of_found found
    exact find?_replace sound.ascending entry called.symm name
  · next i missing => exact find?_insert sound missing fresh name

/-- A change of the variable at a place is found under its name. -/
theorem find?_modify (ascending : table.Ascending) {i : Nat} {v : Variable}
    (entry : table.entries[i]? = some v) {change : Variable → Variable}
    (named : ∀ v, (change v).name = v.name) (name : String) :
    find? ⟨table.entries.modify i change⟩ name =
      if name = v.name then some (change v) else table.find? name := by
  rw [List.modify_eq_set_getElem?, entry]
  have replaced := find?_replace ascending entry (named v) name
  rwa [named v] at replaced

/-- A change is found under the name that was asked for, if that is there. -/
theorem find?_modify? (ascending : table.Ascending) {name : String}
    {change : Variable → Variable} (named : ∀ v, (change v).name = v.name)
    (other : String) :
    ((table.modify? name change).getD table).find? other =
      if other = lower name then (table.find? other).map change
      else table.find? other := by
  unfold VariableTable.modify?
  split
  · next i found =>
    obtain ⟨v, present, entry, called⟩ := find?_of_found found
    rw [Option.getD_some, find?_modify ascending entry named, called]
    split
    · next same => rw [same, present, Option.map_some]
    · rfl
  · next i missing =>
    split
    · next same =>
      rw [same, Option.getD_none, find?_of_gap missing]
      rfl
    · rfl

/-- The kept tree is found under its name. -/
theorem find?_keepTree (ascending : table.Ascending) (name other : String) :
    (table.keepTree name).find? other =
      if other = name then (table.find? other).map Variable.keepTree
      else table.find? other := by
  unfold VariableTable.keepTree
  split
  · next i found =>
    obtain ⟨v, present, entry, called⟩ := find?_of_found found
    rw [find?_modify ascending entry Variable.name_keepTree, called]
    split
    · next same => rw [same, present, Option.map_some]
    · rfl
  · next i missing =>
    split
    · next same =>
      rw [same, find?_of_gap missing]
      rfl
    · rfl

/-- What is taken out is what was found, and it is not found any more. -/
theorem remove?_eq (ascending : table.Ascending) (name : String) :
    match table.remove? name with
    | some (v, rest) => table.find? (lower name) = some v ∧
        ∀ other, rest.find? other =
          if other = lower name then none else table.find? other
    | none => table.find? (lower name) = none := by
  unfold VariableTable.remove?
  cases search : table.search (lower name) with
  | gap i => exact find?_of_gap search
  | found i =>
    obtain ⟨v, present, entry, called⟩ := find?_of_found search
    simp only [entry, Option.map_some]
    refine ⟨present, fun other => ?_⟩
    have fewer : (table.entries.eraseIdx i).Sublist table.entries :=
      List.eraseIdx_sublist _ _
    -- what is left still ascends, so being found is being there
    refine find?_eq_of_mem (ascending.sublist fewer) (fun w named => ?_)
      fun w found => ?_
    · rw [List.mem_eraseIdx_iff_getElem?]
      split
      · next same =>
        refine iff_of_false ?_ nofun
        rintro ⟨j, apart, there⟩
        refine apart (ascending.place_unique there entry ?_)
        rw [named, same, called]
      · next elsewhere =>
        rw [find?_eq_some_iff ascending, List.mem_iff_getElem?]
        constructor
        · rintro ⟨j, -, there⟩
          exact ⟨⟨j, there⟩, named⟩
        · rintro ⟨⟨j, there⟩, -⟩
          refine ⟨j, ?_, there⟩
          rintro rfl
          rw [entry] at there
          cases there
          exact elsewhere (named.symm.trans called)
    · split at found
      · cases found
      · exact (find?_some found).2

/-- The names that are retained are found as before. -/
theorem find?_retain (sound : table.Sound) (names : Names) (name : String) :
    (table.retain names).find? name =
      if name ∈ names then table.find? name else none := by
  refine find?_eq_of_mem (sound.retain names).ascending (fun v named => ?_)
    fun v found => ?_
  · rw [retain, List.mem_filter, List.contains_iff_mem, named]
    split
    · next kept =>
      rw [find?_eq_some_iff sound.ascending]
      exact ⟨fun member => ⟨member.1, named⟩, fun member => ⟨member.1, kept⟩⟩
    · next dropped => exact iff_of_false (fun member => dropped member.2) nofun
  · split at found
    · exact (find?_some found).2
    · cases found

/-- A name is found after it was asked for, at the place that was given; all
else is as before, and a name that was there changes nothing. -/
theorem findOrInsert_eq (sound : table.Sound) {name : String}
    (lowered : lower name = name) :
    let (i, after) := table.findOrInsert name
    (∃ v, after.entries[i]? = some v ∧ v.name = name) ∧
    (∀ other, after.find? other =
      if other = name then some ((table.find? name).getD (.named name))
      else table.find? other) ∧
    (table.find? name ≠ none → after = table) := by
  unfold VariableTable.findOrInsert
  cases search : table.search name with
  | found i =>
    obtain ⟨v, present, entry, called⟩ := find?_of_found search
    refine ⟨⟨v, entry, called⟩, fun other => ?_, fun _ => rfl⟩
    split
    · next same => rw [same, present, Option.getD_some]
    · rfl
  | gap i =>
    have absent := find?_of_gap search
    have called : (Variable.named name).name = name := lowered
    refine ⟨⟨.named name, ?_, called⟩, fun other => ?_, fun there =>
      absurd absent there⟩
    · rw [List.getElem?_insertIdx_self]
      exact if_pos (gap_of_search sound.ascending search).1
    · have inserted := find?_insert sound (v := .named name)
        (by rwa [called]) (Variable.fresh_named name) other
      rw [called] at inserted
      rw [absent, Option.getD_none]
      exact inserted

end VariableTable

end FieldMesh.Formula
