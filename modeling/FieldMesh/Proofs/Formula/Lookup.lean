import FieldMesh.Formula.VariableTable

/-!
# Looking names up

Tables are searched by halving, which is right as long as their names ascend.
They always do: whatever changes a table puts names where a search says.

* `VariableTable.Ascending`: every name comes after those before it;
* `Narrowed`: what a search knows about the part that is left, kept by every
  halving (`narrowed_bisect`);
* `find?_eq_some_iff`, `find?_eq_none_iff`: a search finds a variable exactly
  if it is in the table;
* `VariableTable.Sound`: the names ascend and the kept trees are fresh, which
  holds of the empty table and is kept by everything that changes tables.
-/

namespace FieldMesh.Formula.VariableTable

open FieldMesh.Text

/-- Every name comes after the names before it. -/
def Ascending (table : VariableTable) : Prop :=
  table.entries.Pairwise fun v w => v.name < w.name

theorem Ascending.name_lt {table : VariableTable}
    (ascending : table.Ascending) {i j : Nat} {v w : Variable} (order : i < j)
    (first : table.entries[i]? = some v)
    (second : table.entries[j]? = some w) : v.name < w.name := by
  obtain ⟨inside, rfl⟩ := List.getElem?_eq_some_iff.mp first
  obtain ⟨inside', rfl⟩ := List.getElem?_eq_some_iff.mp second
  exact List.pairwise_iff_getElem.mp ascending i j inside inside' order

/-- What is below a variable's name is below every later one. -/
theorem Ascending.above_from {table : VariableTable}
    (ascending : table.Ascending) {name : String} {i j : Nat} {v w : Variable}
    (entry : table.entries[i]? = some v) (above : name < v.name)
    (order : i ≤ j) (found : table.entries[j]? = some w) : name < w.name := by
  rcases Nat.eq_or_lt_of_le order with rfl | later
  · cases entry.symm.trans found
    exact above
  · exact String.lt_trans above (ascending.name_lt later entry found)

/-- What is above a variable's name is above every earlier one. -/
theorem Ascending.below_upto {table : VariableTable}
    (ascending : table.Ascending) {name : String} {i j : Nat} {v w : Variable}
    (entry : table.entries[i]? = some v) (below : v.name < name)
    (order : j ≤ i) (found : table.entries[j]? = some w) : w.name < name := by
  rcases Nat.eq_or_lt_of_le order with rfl | earlier
  · cases entry.symm.trans found
    exact below
  · exact String.lt_trans (ascending.name_lt earlier found entry) below

theorem ascending_of_name_lt {table : VariableTable}
    (ordered : ∀ {i j : Nat} {v w : Variable}, i < j →
      table.entries[i]? = some v → table.entries[j]? = some w →
      v.name < w.name) : table.Ascending :=
  List.pairwise_iff_getElem.mpr fun _ _ inside inside' order =>
    ordered order (List.getElem?_eq_getElem inside)
      (List.getElem?_eq_getElem inside')

/-- A name belongs to one variable. -/
theorem Ascending.eq_of_name {table : VariableTable}
    (ascending : table.Ascending) {v w : Variable} (hv : v ∈ table.entries)
    (hw : w ∈ table.entries) (same : v.name = w.name) : v = w := by
  obtain ⟨i, first⟩ := List.mem_iff_getElem?.mp hv
  obtain ⟨j, second⟩ := List.mem_iff_getElem?.mp hw
  rcases Nat.lt_trichotomy i j with order | rfl | order
  · have apart := ascending.name_lt order first second
    rw [same] at apart
    exact absurd apart (String.lt_irrefl _)
  · rw [first] at second
    exact Option.some.inj second
  · have apart := ascending.name_lt order second first
    rw [same] at apart
    exact absurd apart (String.lt_irrefl _)

/-! ## Halving -/

/-- What a search for a name knows: the `size` entries from `base` on are
left, the first of them is not above the name unless it is the first of all,
and all entries after them are above it. -/
structure Narrowed (entries : List Variable) (name : String)
    (base size : Nat) : Prop where
  nonempty : 0 < size
  inside : base + size ≤ entries.length
  low : base = 0 ∨ ∃ v, entries[base]? = some v ∧ ¬ name < v.name
  high : ∀ i v, base + size ≤ i → entries[i]? = some v → name < v.name

/-- Halving goes on until one entry is left. -/
theorem narrowed_bisect {table : VariableTable} (ascending : table.Ascending)
    {name : String} {base size : Nat}
    (narrowed : Narrowed table.entries name base size) :
    Narrowed table.entries name (bisect table.entries name base size) 1 := by
  induction size using Nat.strongRecOn generalizing base with
  | ind size ih =>
    rw [bisect]
    split
    · next large =>
      have inside := narrowed.inside
      have present : base + size / 2 < table.entries.length := by omega
      have entry := List.getElem?_eq_getElem present
      generalize table.entries[base + size / 2] = v at entry
      simp only [entry]
      refine ih (size - size / 2) (by omega) ?_
      by_cases above : name < v.name
      · -- the upper half goes: its entries are above the middle one
        rw [decide_eq_true above, if_pos rfl]
        refine ⟨by omega, by omega, narrowed.low, ?_⟩
        intro i w after found
        exact ascending.above_from entry above (by omega) found
      · -- the lower half goes: the middle entry is not above the name
        rw [decide_eq_false above, if_neg Bool.false_ne_true]
        refine ⟨by omega, by omega, .inr ⟨v, entry, above⟩, ?_⟩
        intro i w after found
        exact narrowed.high i w (by omega) found
    · next small =>
      have one : size = 1 := by
        have := narrowed.nonempty
        omega
      rw [one] at narrowed
      exact narrowed

/-! ## Searching -/

/-- Where a search finds a name, there is a variable of that name. -/
theorem name_of_search {table : VariableTable} {name : String} {i : Nat}
    (found : table.search name = .found i) :
    ∃ v, table.entries[i]? = some v ∧ v.name = name := by
  unfold search at found
  simp only at found
  split at found
  · cases found
  · next v entry =>
    split at found
    · next same =>
      cases found
      exact ⟨v, entry, same⟩
    · split at found <;> cases found

/-- Where a search finds a gap, the names before it are below the name and
those after it are above. -/
theorem gap_of_search {table : VariableTable} (ascending : table.Ascending)
    {name : String} {i : Nat} (missing : table.search name = .gap i) :
    i ≤ table.size ∧ ∀ j v, table.entries[j]? = some v →
      (j < i → v.name < name) ∧ (i ≤ j → name < v.name) := by
  unfold search at missing
  simp only at missing
  rcases Nat.eq_zero_or_pos table.size with zero | pos
  · have empty : table.entries = [] := List.eq_nil_of_length_eq_zero zero
    simp only [empty, List.getElem?_nil] at missing
    cases missing
    refine ⟨Nat.zero_le _, fun j v found => ?_⟩
    rw [empty] at found
    cases found
  · -- the one entry that halving leaves decides on which side the name goes
    have narrowed := narrowed_bisect ascending
      (⟨pos, by rw [Nat.zero_add]; exact Nat.le_refl _, .inl rfl,
        fun j v after found => absurd
          (List.getElem?_eq_some_iff.mp found).1 (by
            simp only [size] at after
            omega)⟩ : Narrowed table.entries name 0 table.size)
    generalize bisect table.entries name 0 table.size = base at narrowed missing
    have inside := narrowed.inside
    have entry := List.getElem?_eq_getElem (show base < table.entries.length by
      omega)
    generalize table.entries[base] = v at entry
    simp only [entry] at missing
    split at missing
    · cases missing
    · next different =>
      split at missing
      · next below =>
        cases missing
        refine ⟨inside, fun j w found => ⟨fun before => ?_, fun after => ?_⟩⟩
        · exact ascending.below_upto entry below (by omega) found
        · exact narrowed.high j w after found
      · next notBelow =>
        -- only the first of all entries can be above the name
        cases missing
        have above : name < v.name := by
          rcases String.le_total v.name name with le | le
          · exact absurd (String.le_antisymm le
              (String.not_lt.mp notBelow)) different
          · exact String.not_le.mp fun le' =>
              different (String.le_antisymm le' le)
        have first : i = 0 := by
          rcases narrowed.low with zero | ⟨w, found, notAbove⟩
          · exact zero
          · rw [entry] at found
            cases found
            exact absurd above notAbove
        subst first
        refine ⟨Nat.zero_le _, fun j w found => ⟨fun before => ?_, fun after => ?_⟩⟩
        · omega
        · exact ascending.above_from entry above after found

theorem find?_eq_none_iff {table : VariableTable}
    (ascending : table.Ascending) {name : String} :
    table.find? name = none ↔ ∀ v ∈ table.entries, v.name ≠ name := by
  unfold find?
  cases found : table.search name with
  | found i =>
    obtain ⟨v, entry, same⟩ := name_of_search found
    constructor
    · intro absent
      exact absurd (entry.symm.trans absent) (by simp)
    · intro absent
      exact absurd same (absent v (List.mem_of_getElem? entry))
  | gap i =>
    constructor
    · intro _ v member same
      obtain ⟨j, entry⟩ := List.mem_iff_getElem?.mp member
      obtain ⟨below, above⟩ := (gap_of_search ascending found).2 j v entry
      rw [same] at below above
      rcases Nat.lt_or_ge j i with order | order
      · exact String.lt_irrefl _ (below order)
      · exact String.lt_irrefl _ (above order)
    · intro _
      rfl

theorem find?_eq_some_iff {table : VariableTable}
    (ascending : table.Ascending) {name : String} {v : Variable} :
    table.find? name = some v ↔ v ∈ table.entries ∧ v.name = name := by
  constructor
  · exact find?_some
  · rintro ⟨member, same⟩
    cases found : table.find? name with
    | none => exact absurd same ((find?_eq_none_iff ascending).mp found v member)
    | some w =>
      obtain ⟨member', same'⟩ := find?_some found
      rw [ascending.eq_of_name member' member (same'.trans same.symm)]

/-! ## Changing tables -/

/-- A name goes into the gap between those below it and those above it. -/
theorem Ascending.insert {table : VariableTable} (ascending : table.Ascending)
    {v : Variable} {i : Nat} (missing : table.search v.name = .gap i) :
    Ascending ⟨table.entries.insertIdx i v⟩ := by
  obtain ⟨inside, around⟩ := gap_of_search ascending missing
  -- either entry can be an old one or the new one; entries after the gap move
  refine ascending_of_name_lt fun {j k u w} order first second => ?_
  simp only [List.getElem?_insertIdx] at first second
  split at first
  · next before =>
    split at second
    · exact ascending.name_lt order first second
    · split at second
      · split at second
        · cases second
          exact (around j u first).1 before
        · cases second
      · exact ascending.name_lt (by omega) first second
  · split at first
    · split at first
      · cases first
        rw [if_neg (by omega), if_neg (by omega)] at second
        exact (around (k - 1) w second).2 (by omega)
      · cases first
    · rw [if_neg (by omega), if_neg (by omega)] at second
      exact ascending.name_lt (by omega) first second

/-- A variable in place of one of the same name. -/
theorem Ascending.replace {table : VariableTable} (ascending : table.Ascending)
    {v w : Variable} {i : Nat} (entry : table.entries[i]? = some w)
    (same : v.name = w.name) : Ascending ⟨table.entries.set i v⟩ := by
  obtain ⟨inside, rfl⟩ := List.getElem?_eq_some_iff.mp entry
  unfold Ascending at ascending ⊢
  rw [← List.pairwise_map (f := Variable.name)] at ascending ⊢
  have bound : i < (table.entries.map Variable.name).length := by simpa
  have named : v.name = (table.entries.map Variable.name)[i] := by
    rw [same, List.getElem_map]
  rw [List.map_set, named, List.set_getElem_self]
  exact ascending

/-- What the operations on tables keep: the names ascend, and a tree that is
kept is the one that the text says. -/
structure Sound (table : VariableTable) : Prop where
  ascending : table.Ascending
  fresh : ∀ v ∈ table.entries, v.Fresh

theorem sound_empty : empty.Sound := ⟨.nil, nofun⟩

namespace Sound

variable {table : VariableTable}

/-- Some of the variables of a table, in their order. -/
theorem sublist (sound : table.Sound) {entries : List Variable}
    (fewer : entries.Sublist table.entries) : Sound ⟨entries⟩ :=
  ⟨sound.ascending.sublist fewer, fun v member =>
    sound.fresh v (fewer.subset member)⟩

theorem insert (sound : table.Sound) {v : Variable} (fresh : v.Fresh) {i : Nat}
    (missing : table.search v.name = .gap i) :
    Sound ⟨table.entries.insertIdx i v⟩ := by
  refine ⟨sound.ascending.insert missing, fun w member => ?_⟩
  have inside := (gap_of_search sound.ascending missing).1
  rcases (List.mem_insertIdx inside).mp member with rfl | old
  · exact fresh
  · exact sound.fresh w old

theorem replace (sound : table.Sound) {v w : Variable} (fresh : v.Fresh)
    {i : Nat} (entry : table.entries[i]? = some w) (same : v.name = w.name) :
    Sound ⟨table.entries.set i v⟩ := by
  refine ⟨sound.ascending.replace entry same, fun u member => ?_⟩
  rcases List.mem_or_eq_of_mem_set member with old | rfl
  · exact sound.fresh u old
  · exact fresh

theorem set (sound : table.Sound) {v : Variable} (fresh : v.Fresh) :
    (table.set v).Sound := by
  unfold VariableTable.set
  split
  · next i found =>
    obtain ⟨w, entry, named⟩ := name_of_search found
    exact sound.replace fresh entry named.symm
  · next i missing => exact sound.insert fresh missing

/-- Changing a variable, under its name. -/
theorem modify (sound : table.Sound) (i : Nat) {change : Variable → Variable}
    (named : ∀ v, (change v).name = v.name)
    (fresh : ∀ v, v.Fresh → (change v).Fresh) :
    Sound ⟨table.entries.modify i change⟩ := by
  -- no entry changes its place or its name
  have changed : ∀ {j : Nat} {w : Variable},
      (table.entries.modify i change)[j]? = some w →
      ∃ v, table.entries[j]? = some v ∧ w.name = v.name ∧ w.Fresh := by
    intro j w entry
    rw [List.getElem?_modify] at entry
    obtain ⟨v, before, rfl⟩ := Option.map_eq_some_iff.mp entry
    have freshBefore := sound.fresh v (List.mem_of_getElem? before)
    refine ⟨v, before, ?_⟩
    split
    · exact ⟨named v, fresh v freshBefore⟩
    · exact ⟨rfl, freshBefore⟩
  refine ⟨ascending_of_name_lt fun order first second => ?_, fun w member => ?_⟩
  · obtain ⟨v, before, name, -⟩ := changed first
    obtain ⟨v', before', name', -⟩ := changed second
    rw [name, name']
    exact sound.ascending.name_lt order before before'
  · obtain ⟨j, entry⟩ := List.mem_iff_getElem?.mp member
    obtain ⟨-, -, -, isFresh⟩ := changed entry
    exact isFresh

theorem modify? (sound : table.Sound) {name : String}
    {change : Variable → Variable} (named : ∀ v, (change v).name = v.name)
    (fresh : ∀ v, v.Fresh → (change v).Fresh) {changed : VariableTable}
    (done : table.modify? name change = some changed) : changed.Sound := by
  unfold VariableTable.modify? at done
  split at done
  · cases done
    exact sound.modify _ named fresh
  · cases done

theorem remove? (sound : table.Sound) {name : String} {v : Variable}
    {rest : VariableTable} (done : table.remove? name = some (v, rest)) :
    rest.Sound := by
  unfold VariableTable.remove? at done
  split at done
  · obtain ⟨w, -, same⟩ := Option.map_eq_some_iff.mp done
    cases same
    exact sound.sublist (List.eraseIdx_sublist _ _)
  · cases done

theorem retain (sound : table.Sound) (names : Names) :
    (table.retain names).Sound :=
  sound.sublist List.filter_sublist

theorem findOrInsert (sound : table.Sound) {name : String}
    (lowered : lower name = name) : (table.findOrInsert name).2.Sound := by
  unfold VariableTable.findOrInsert
  split
  · exact sound
  · next i missing =>
    refine sound.insert (Variable.fresh_named name) ?_
    rw [← missing]
    exact congrArg table.search lowered

theorem keepTree (sound : table.Sound) (name : String) :
    (table.keepTree name).Sound := by
  unfold VariableTable.keepTree
  split
  · refine sound.modify _ (fun v => ?_) fun v => Variable.fresh_keepTree
    unfold Variable.keepTree
    split <;> rfl
  · exact sound

end Sound

/-- Tables that are put together from fresh variables. -/
theorem sound_ofList {entries : List Variable}
    (fresh : ∀ v ∈ entries, v.Fresh) : (ofList entries).Sound := by
  refine List.foldlRecOn entries _ sound_empty fun table sound v member => ?_
  -- a tree depends on text and kind only, and these are taken over
  refine sound.set fun tree kept => ?_
  have read := fresh v member tree kept
  unfold Variable.readTree at read ⊢
  simp only
  split at read
  · cases read
  · cases read
  · exact read

end FieldMesh.Formula.VariableTable
