import FieldMesh.Proofs.Formula.Tokens
import FieldMesh.Vector

/-!
# Reading mesh texts

A mesh text as it is read by someone who knows nothing of buffers: line by
line, and each line word by word.

* `Record.read?`, `records?`: the lines of a text, as a reader takes them;
* `positionsIn`, `normalsIn`, `trianglesIn`, `announced`: what they say;
* `IsWord`: characters that are read as one word; numbers are;
* `Spells`: a line that reads as a record; `records?_join` puts lines together.
-/

namespace FieldMesh.Mesh

open FieldMesh.Decimal FieldMesh.Formula

/-! ## Readers -/

/-- The numbers of a position and of a normal, counted from one. -/
abbrev CornerNumbers := Nat × Nat

/-- A line of a mesh text, as a reader takes it. -/
inductive Record where
  | blank
  | remark (words : List (List Char))
  | position (v : Vec3)
  | normal (v : Vec3)
  | triangle (a b c : CornerNumbers)

/-- A whole number in decimal digits. -/
def count? (word : List Char) : Option Nat :=
  if word ≠ [] ∧ word.all Char.isDigit then some (Nat.ofDigitChars 10 word 0)
  else none

/-- The numbers of a corner, with two slashes between them. -/
def corner? (word : List Char) : Option CornerNumbers :=
  match word.splitOn '/' with
  | [position, [], normal] => do return (← count? position, ← count? normal)
  | _ => none

def vector? : List (List Char) → Option Vec3
  | [x, y, z] => do return ⟨← number? x, ← number? y, ← number? z⟩
  | _ => none

def triangle? : List (List Char) → Option Record
  | [a, b, c] => do return .triangle (← corner? a) (← corner? b) (← corner? c)
  | _ => none

/-- The first word of a line tells what the others are. -/
def Record.ofWords? : List (List Char) → Option Record
  | [[]] => some .blank
  | ['#'] :: words => some (.remark words)
  | ['v'] :: words => (vector? words).map .position
  | ['v', 'n'] :: words => (vector? words).map .normal
  | ['f'] :: words => triangle? words
  | _ => none

def Record.read? (line : List Char) : Option Record :=
  ofWords? (line.splitOn ' ')

/-- The records of a text, if every line ends and can be read. -/
def records? (text : String) : Option (List Record) :=
  let lines := text.toList.splitOn '\n'
  if lines.getLast? = some [] then lines.dropLast.mapM Record.read? else none

/-! ## What records say -/

namespace Record

def position? : Record → Option Vec3
  | position v => some v
  | _ => none

def normal? : Record → Option Vec3
  | normal v => some v
  | _ => none

/-- The corners of a triangle. -/
def corners? : Record → Option (List CornerNumbers)
  | triangle a b c => some [a, b, c]
  | _ => none

/-- The number that a remark announces under a name. -/
def announced? (name : String) : Record → Option Nat
  | remark [word, number] => if word = name.toList then count? number else none
  | _ => none

end Record

section

variable (records : List Record)

def positionsIn : List Vec3 := records.filterMap Record.position?

def normalsIn : List Vec3 := records.filterMap Record.normal?

/-- The triangles, each by its corners. -/
def trianglesIn : List (List CornerNumbers) := records.filterMap Record.corners?

/-- The numbers that are announced under a name. -/
def announced (name : String) : List Nat :=
  records.filterMap (Record.announced? name)

end

/-! ## Words -/

/-- Characters without a blank and without an end of line. -/
def IsWord (word : List Char) : Prop := ' ' ∉ word ∧ '\n' ∉ word

instance (word : List Char) : Decidable (IsWord word) :=
  inferInstanceAs (Decidable (_ ∧ _))

theorem isWord_append {one other : List Char} (first : IsWord one)
    (second : IsWord other) : IsWord (one ++ other) := by
  simp only [IsWord, List.mem_append, not_or]
  exact ⟨⟨first.1, second.1⟩, first.2, second.2⟩

theorem isWord_of_isDigit {word : List Char}
    (digits : ∀ c ∈ word, c.isDigit = true) : IsWord word :=
  ⟨fun blank => absurd (digits _ blank) (by decide),
    fun ending => absurd (digits _ ending) (by decide)⟩

theorem isWord_toDigits (n : Nat) : IsWord (Nat.toDigits 10 n) :=
  isWord_of_isDigit fun _ => Json.isDigit_of_mem_toDigits

/-- The text of a number is one word. -/
theorem isWord_formulaText (x : Float32) : IsWord (formulaText x).toList := by
  unfold formulaText
  cases parts : Binary32.parts x with
  | notANumber => decide
  | infinite negative => cases negative <;> decide
  | finite negative mantissa scale =>
    have standard := Json.standard_numeral .formula nofun negative
      (Json.mantissa_lt parts) scale
    have positional : (Style.formula.numeral negative mantissa scale).exponent =
        none := by
      unfold Style.numeral
      split
      · rfl
      · exact (positionalNumeral_plain _ _ _).2
    have whole := isWord_of_isDigit standard.whole
    have fraction := isWord_of_isDigit standard.fraction
    simp only [Numeral.text, String.toList_ofList, Numeral.chars, positional,
      List.append_nil]
    refine isWord_append (isWord_append ?_ whole) ?_
    · cases (Style.formula.numeral negative mantissa scale).negative <;> decide
    · split
      · decide
      · have point : IsWord ['.'] := by decide
        exact isWord_append point fraction

/-- A whole number is read as what it was. -/
theorem count?_toDigits (n : Nat) : count? (Nat.toDigits 10 n) = some n := by
  have digits : (Nat.toDigits 10 n).all Char.isDigit = true :=
    List.all_eq_true.mpr fun _ => Json.isDigit_of_mem_toDigits
  rw [count?, if_pos ⟨Nat.toDigits_ne_nil, digits⟩, Nat.ofDigitChars_ten_toDigits]

/-! ## Lines -/

/-- `Spells line r`: the text is one line, which reads as the record. -/
structure Spells (line : String) (r : Record) : Prop where
  oneLine : '\n' ∉ line.toList
  reads : Record.read? line.toList = some r

theorem mem_intercalate {c blank : Char} {words : List (List Char)}
    (member : c ∈ [blank].intercalate words) :
    c = blank ∨ ∃ word ∈ words, c ∈ word := by
  induction words with
  | nil => cases member
  | cons word rest ih =>
    cases rest with
    | nil => exact .inr ⟨word, List.mem_singleton_self word, by simpa using member⟩
    | cons next rest =>
      rw [List.intercalate_cons_cons] at member
      rcases List.mem_append.mp member with front | later
      · rcases List.mem_append.mp front with own | between
        · exact .inr ⟨word, List.mem_cons_self, own⟩
        · exact .inl (List.mem_singleton.mp between)
      · rcases ih later with rfl | ⟨other, inside, own⟩
        · exact .inl rfl
        · exact .inr ⟨other, List.mem_cons_of_mem word inside, own⟩

/-- Words with blanks between them are read one by one. -/
theorem spells_of_words {line : String} (words : List (List Char)) {r : Record}
    (filled : words ≠ []) (plain : ∀ word ∈ words, IsWord word)
    (spelled : line.toList = [' '].intercalate words)
    (reads : Record.ofWords? words = .some r) : Spells line r where
  oneLine := by
    rw [spelled]
    intro inside
    rcases mem_intercalate inside with blank | ⟨word, member, own⟩
    · cases blank
    · exact (plain word member).2 own
  reads := by
    rw [Record.read?, spelled, List.splitOn_intercalate _ _ filled]
    · exact reads
    · exact fun word member => (plain word member).1

/-! ## Texts -/

/-- A text of lines is read line by line. -/
theorem records?_join {lines : List String} {records : List Record}
    (spells : List.Forall₂ Spells lines records) :
    records? (String.join (lines.map (· ++ "\n"))) = some records := by
  have split : (String.join (lines.map (· ++ "\n"))).toList.splitOn '\n' =
      lines.map String.toList ++ [[]] := by
    induction spells with
    | nil => rfl
    | @cons line r lines records first _ ih =>
      have spelled : (String.join ((line :: lines).map (· ++ "\n"))).toList =
          line.toList ++ '\n' ::
            (String.join (lines.map (· ++ "\n"))).toList := by
        simp [String.toList_join]
      rw [spelled, List.splitOn_append_cons_self_of_not_mem first.oneLine, ih]
      rfl
  have each : (lines.map String.toList).mapM Record.read? = some records := by
    clear split
    induction spells with
    | nil => rfl
    | @cons line r lines records first _ ih =>
      rw [List.map_cons, List.mapM_cons, first.reads, ih]
      rfl
  simp only [records?, split, List.getLast?_concat, List.dropLast_concat, if_true]
  exact each

end FieldMesh.Mesh
