import FieldMesh.Formula.Variable

/-!
# Variable tables

The variables of a formula, in ascending order of their names. Names are
found by halving.

* `Names`: sets of names, ascending and without repetition as well;
* `search`: where a name is, or where it has to be put;
* `get?`, `modify?`, `remove?`: by a name in any spelling;
* `set`, `findOrInsert`, `retain`: putting variables in and taking them out.
-/

namespace FieldMesh.Formula

open FieldMesh.Text

/-! ## Sets of names -/

/-- An ascending list of names without repetition. -/
abbrev Names := List String

namespace Names

/-- Puts a name into its place, if it is not there yet. -/
def insert (name : String) : Names → Names
  | [] => [name]
  | first :: rest =>
    if name < first then name :: first :: rest
    else if name = first then first :: rest
    else first :: insert name rest

theorem mem_insert {name other : String} {names : Names} :
    other ∈ insert name names ↔ other = name ∨ other ∈ names := by
  induction names with
  | nil => simp [insert]
  | cons first rest ih =>
    unfold insert
    split
    · simp
    · split
      · next same => subst same; simp
      · simp only [List.mem_cons, ih]
        grind

end Names

/-! ## Tables -/

/-- Variables in ascending order of their names. -/
structure VariableTable where
  entries : List Variable

namespace VariableTable

/-- The table without variables. -/
def empty : VariableTable := ⟨[]⟩

/-- The number of variables. -/
def size (table : VariableTable) : Nat := table.entries.length

/-! ## Searching -/

/-- Where a name is in a table, or where it has to be put. -/
inductive Position where
  | found (index : Nat)
  | gap (index : Nat)
  deriving DecidableEq, Repr

/-- Halves `size` entries from `base` on until one is left: the last whose
name is not above the one searched for, if there is such an entry. -/
def bisect (entries : List Variable) (name : String) (base size : Nat) : Nat :=
  if 1 < size then
    let half := size / 2
    let above := match entries[base + half]? with
      | some v => decide (name < v.name)
      | none => true
    bisect entries name (if above then base else base + half) (size - half)
  else base
termination_by size

/-- Searches for a name as it is spelled. -/
def search (table : VariableTable) (name : String) : Position :=
  let base := bisect table.entries name 0 table.size
  match table.entries[base]? with
  | none => .gap 0
  | some v =>
    if v.name = name then .found base
    else if v.name < name then .gap (base + 1)
    else .gap base

/-- The variable of a name as it is spelled. -/
def find? (table : VariableTable) (name : String) : Option Variable :=
  match table.search name with
  | .found index => table.entries[index]?
  | .gap _ => none

/-- A variable that was found is in the table and has the name. -/
theorem find?_some {table : VariableTable} {name : String} {v : Variable}
    (found : table.find? name = some v) :
    v ∈ table.entries ∧ v.name = name := by
  unfold find? search at found
  simp only at found
  split at found
  · next index position =>
    split at position
    · cases position
    · next w entry =>
      split at position
      · next same =>
        cases position
        rw [entry] at found
        cases found
        exact ⟨List.mem_of_getElem? entry, same⟩
      · split at position <;> cases position
  · cases found

/-! ## Reading and changing -/

/-- The variable of a name. -/
def get? (table : VariableTable) (name : String) : Option Variable :=
  table.find? (lower name)

/-- Changes the variable of a name, if there is one. -/
def modify? (table : VariableTable) (name : String)
    (change : Variable → Variable) : Option VariableTable :=
  match table.search (lower name) with
  | .found index => some ⟨table.entries.modify index change⟩
  | .gap _ => none

/-- Takes the variable of a name out. -/
def remove? (table : VariableTable) (name : String) :
    Option (Variable × VariableTable) :=
  match table.search (lower name) with
  | .found index =>
    table.entries[index]?.map fun v => (v, ⟨table.entries.eraseIdx index⟩)
  | .gap _ => none

/-- Puts a variable in, in place of the one of its name. -/
def set (table : VariableTable) (v : Variable) : VariableTable :=
  match table.search v.name with
  | .found index => ⟨table.entries.set index v⟩
  | .gap index => ⟨table.entries.insertIdx index v⟩

/-- Finds a name as it is spelled, and declares it if it is not there. -/
def findOrInsert (table : VariableTable) (name : String) :
    Nat × VariableTable :=
  match table.search name with
  | .found index => (index, table)
  | .gap index => (index, ⟨table.entries.insertIdx index (.named name)⟩)

/-- Drops every variable whose name is not among some. -/
def retain (table : VariableTable) (names : Names) : VariableTable :=
  ⟨table.entries.filter (names.contains ·.name)⟩

/-- Puts variables in, one after the other. -/
def ofList (entries : List Variable) : VariableTable :=
  entries.foldl (fun table v => table.set { v with name := lower v.name })
    empty

/-- Declares a name and keeps the tree of its sub-formula. -/
def keepTree (table : VariableTable) (name : String) : VariableTable :=
  match table.search name with
  | .found index => ⟨table.entries.modify index Variable.keepTree⟩
  | .gap _ => table

/-- Whether two tables say the same. -/
def same (table other : VariableTable) : Bool :=
  table.size == other.size &&
    (table.entries.zip other.entries).all fun (v, w) => v.same w

end VariableTable

end FieldMesh.Formula
