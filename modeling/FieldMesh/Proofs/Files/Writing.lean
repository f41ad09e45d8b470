import Mathlib.Data.String.Basic
import FieldMesh.Files.Tree

/-!
# Files that are written

What is written to a file is read from it again. Names are followed through
directories only, so writing a file does not change where they lead.

* `entry?_put`: what is at a path after an entry has been put somewhere;
* `follow_put`: names lead where they did before, if no directory is replaced;
* `IsPlain`: names of entries of the working directory, and where they lead;
* **main result**: `read_write`.
-/

namespace FieldMesh.Files.Tree

variable {t t' : Tree} {path other here : Path} {e : Entry}

/-! ## Entries -/

/-- The entries at other paths are found without those at one path. -/
theorem lookup_filter (apart : other ≠ path) (entries : List (Path × Entry)) :
    (entries.filter (·.1 != path)).lookup other = entries.lookup other := by
  induction entries with
  | nil => rfl
  | cons entry rest ih =>
    by_cases here : entry.1 = path
    · have passed : (other == entry.1) = false := by simp [here, apart]
      rw [List.filter_cons_of_neg (by simp [here]), ih, List.lookup_cons, passed]
    · rw [List.filter_cons_of_pos (by simp [here]), List.lookup_cons,
        List.lookup_cons, ih]

/-- Below the working directory there is what has been put there, and all else
is as it was. -/
theorem entry?_put (t : Tree) (path other : Path) (e : Entry) :
    Tree.entry? (t.put path e) other =
      if other = path ∧ other ≠ [] then some e else t.entry? other := by
  unfold entry? put
  cases other with
  | nil => simp
  | cons part parts =>
    by_cases here : part :: parts = path
    · subst here
      simp
    · have passed : (part :: parts == path) = false := by simp [here]
      rw [List.lookup_cons, passed, lookup_filter here]
      simp [here]

/-! ## Names -/

/-- A name goes on from directories only. -/
theorem directory_of_enter {part : String} (entered : t.enter here part = .ok other) :
    ∃ e, t.entry? here = some e ∧ e.isDirectory = true := by
  unfold enter at entered
  cases found : t.entry? here with
  | none => simp [found] at entered
  | some e =>
    refine ⟨e, rfl, ?_⟩
    cases directory : e.isDirectory with
    | true => rfl
    | false => simp [found, directory] at entered

/-- The next part of a name depends on the entry that it goes on from. -/
theorem enter_congr (same : t.entry? here = t'.entry? here) (part : String) :
    t.enter here part = t'.enter here part := by
  unfold enter
  rw [same]

/-- A path to which a file can be put: there is no directory. -/
def IsFilePath (t : Tree) (path : Path) : Prop :=
  ∀ e, t.entry? path = some e → e.isDirectory = false

/-- Names lead where they did before, if no directory is replaced. -/
theorem follow_put (file : t.IsFilePath path) (e : Entry) {parts : List String}
    (followed : parts.foldlM t.enter here = .ok other) :
    parts.foldlM (t.put path e).enter here = .ok other := by
  induction parts generalizing here with
  | nil => exact followed
  | cons part rest ih =>
    rw [List.foldlM_cons] at followed ⊢
    cases entered : t.enter here part with
    | error fault =>
      rw [entered] at followed
      cases followed
    | ok next =>
      rw [entered] at followed
      obtain ⟨d, found, directory⟩ := directory_of_enter entered
      have apart : here ≠ path := by
        rintro rfl
        simp [file d found] at directory
      have kept : Tree.entry? (t.put path e) here = t.entry? here := by
        rw [entry?_put, if_neg fun there => apart there.1]
      rw [enter_congr kept, entered]
      exact ih followed

theorem follow_concat (t : Tree) (parts : List String) (part : String) :
    t.follow (parts ++ [part]) = t.follow parts >>= (t.enter · part) := by
  simp [follow, List.foldlM_append]

/-- Where a name leads with nothing at its end, there is a directory, and names
go on from there. -/
theorem follow_directory {parts : List String} {directory : Path}
    (followed : t.follow (parts ++ [""]) = .ok directory) {part : String}
    (proper : ¬ (part = "" ∨ part = "." ∨ part = "..")) :
    t.follow (parts ++ [part]) = .ok (directory ++ [part]) := by
  rw [follow_concat] at followed ⊢
  cases reached : t.follow parts with
  | error fault =>
    rw [reached] at followed
    cases followed
  | ok here =>
    rw [reached] at followed
    change t.enter here "" = _ at followed
    change t.enter here part = _
    obtain ⟨e, found, isDirectory⟩ := directory_of_enter followed
    obtain rfl : here = directory := by
      simpa [enter, found, isDirectory] using followed
    simp only [not_or] at proper
    simp [enter, found, isDirectory, proper]

/-! ## Main result -/

/-- A file that is to be put somewhere is where its name leads. -/
theorem locate_of_placeFor {name last : String} {directory : Path}
    {parent : Entry} (placed : t.placeFor name = .ok (directory, parent, last)) :
    t.locate name = .ok (directory ++ [last]) := by
  unfold placeFor at placed
  unfold locate
  split at placed
  · cases placed
  · next relative =>
    rw [if_neg relative]
    dsimp only at placed
    let parts := name.splitOn "/"
    cases followed : t.follow (parts.dropLast ++ [""]) with
    | error fault =>
      rw [followed] at placed
      cases placed
    | ok here =>
      rw [followed] at placed
      change (if _ then _ else _) = _ at placed
      split at placed
      · cases placed
      · next proper =>
        -- both follow the same parts, but for the last one
        have whole : parts.dropLast ++ [parts.getLastD ""] = parts := by
          rcases List.eq_nil_or_concat parts with empty | ⟨before, part, split⟩
          · exact absurd (.inl (congrArg (·.getLastD "") empty)) proper
          · simp [split]
        have led := follow_directory followed proper
        rw [whole] at led
        cases found : t.entry? here with
        | none =>
          rw [found] at placed
          cases placed
        | some e =>
          rw [found] at placed
          cases placed
          exact led

/-- A text that is put where a name leads is read by that name. -/
theorem read_put {name : String} (led : t.locate name = .ok path)
    (file : t.IsFilePath path) (below : path ≠ []) (id : Nat) (text : String) :
    (t.put path ⟨id, some text⟩).read name = .ok text := by
  have same : (t.put path ⟨id, some text⟩).locate name = .ok path := by
    unfold locate at led ⊢
    split at led
    · cases led
    · next relative =>
      rw [if_neg relative]
      exact follow_put file _ led
  have held := entry?_put t path path ⟨id, some text⟩
  rw [if_pos ⟨rfl, below⟩] at held
  have found : (t.put path ⟨id, some text⟩).find name =
      .ok (path, ⟨id, some text⟩) := by
    simp only [find, same, bind, Except.bind, held]
    rfl
  simp only [read, found]
  rfl

/-- **What is written is read again.** -/
theorem read_write {name text : String} {changes : List Change}
    (written : t.write name text = .ok (t', changes)) :
    t'.read name = .ok text := by
  unfold write at written
  cases placed : t.placeFor name with
  | error fault =>
    rw [placed] at written
    cases written
  | ok place =>
    obtain ⟨directory, parent, last⟩ := place
    simp only [placed, bind, Except.bind] at written
    have led := locate_of_placeFor placed
    have below : directory ++ [last] ≠ [] := by simp
    cases found : t.entry? (directory ++ [last]) with
    | none =>
      rw [found] at written
      cases written
      exact read_put led (by simp [IsFilePath, found]) below t.nextId text
    | some e =>
      rw [found] at written
      dsimp only at written
      split at written
      · cases written
      · next file =>
        cases written
        exact read_put led (by simpa [IsFilePath, found] using file) below e.id text

/-! ## Plain names -/

open String in
/-- A text without a slash is not split behind its first characters. -/
theorem splitOnAux_of_not_mem (before rest : List Char) (plain : '/' ∉ rest)
    (parts : List String) :
    splitOnAux (.ofList (before ++ rest)) "/" 0 ⟨utf8Len before⟩ 0 parts =
      parts.reverse ++ [.ofList (before ++ rest)] := by
  induction rest generalizing before with
  | nil =>
    have whole := extract_of_valid [] before []
    rw [splitOnAux, if_pos ((atEnd_of_valid before []).mpr rfl)]
    simpa using whole
  | cons c rest ih =>
    obtain ⟨apart, later⟩ : '/' ≠ c ∧ '/' ∉ rest := by simpa using plain
    have next := ih (before ++ [c]) later
    have start : (Pos.Raw.mk (utf8Len before)).unoffsetBy 0 = ⟨utf8Len before⟩ := rfl
    have slash : Pos.Raw.get "/" 0 = '/' := by decide
    rw [splitOnAux, if_neg (by rw [atEnd_of_valid]; nofun),
      get_of_valid before (c :: rest), slash, if_neg (by simpa using apart.symm),
      start, next_of_valid]
    simpa using next

/-- A text without a slash is one part. -/
theorem splitOn_of_not_mem {name : String} (plain : '/' ∉ name.toList) :
    name.splitOn "/" = [name] := by
  have whole := splitOnAux_of_not_mem [] name.toList plain []
  rw [String.splitOn, if_neg (by decide)]
  simpa using whole

/-- A name of an entry of the working directory. -/
def IsPlain (name : String) : Prop :=
  '/' ∉ name.toList ∧ ¬ (name = "" ∨ name = "." ∨ name = "..")

instance (name : String) : Decidable (IsPlain name) :=
  inferInstanceAs (Decidable (_ ∧ _))

theorem IsPlain.not_startsWith {name : String} (plain : IsPlain name) :
    ¬ name.startsWith "/" = true := by
  rw [String.startsWith_string_iff]
  intro absolute
  exact plain.1 (absolute.subset (by decide))

/-- A plain name is that of an entry of the working directory. -/
theorem IsPlain.placeFor {name : String} (plain : IsPlain name) (t : Tree) :
    t.placeFor name = .ok ([], ⟨0, none⟩, name) := by
  have here : t.follow [""] = .ok [] := rfl
  unfold Tree.placeFor
  rw [if_neg plain.not_startsWith, splitOn_of_not_mem plain.1]
  show (t.follow [""] >>= _) = _
  rw [here]
  show (if name = "" ∨ name = "." ∨ name = ".." then _ else _) = _
  rw [if_neg plain.2]
  rfl

theorem IsPlain.locate {name : String} (plain : IsPlain name) (t : Tree) :
    t.locate name = .ok [name] :=
  locate_of_placeFor (plain.placeFor t)

/-- A file of the working directory is read. -/
theorem IsPlain.read {name text : String} (plain : IsPlain name) {id : Nat}
    (found : t.entry? [name] = some ⟨id, some text⟩) :
    t.read name = .ok text := by
  unfold Tree.read Tree.find
  rw [plain.locate]
  simp only [bind, Except.bind, found]
  rfl

/-- A file is made in the working directory. -/
theorem IsPlain.write {name : String} (plain : IsPlain name)
    (absent : t.entry? [name] = none) (text : String) :
    t.write name text =
      .ok ({ t.put [name] ⟨t.nextId, some text⟩ with nextId := t.nextId + 1 },
        [⟨.made, 0, name, t.nextId⟩]) := by
  unfold Tree.write
  rw [plain.placeFor]
  simp only [bind, Except.bind, List.nil_append, absent]
  rfl

end FieldMesh.Files.Tree
