/-!
# Blank characters

The characters that separate tokens and that trimming removes: those with
the Unicode property White_Space. Main statements: `trim_head_not_blank` and
`trim_last_not_blank`, trimmed text has no blank at its ends.
-/

namespace FieldMesh.Text

/-- Whether a character has the Unicode property White_Space. -/
def isBlank (c : Char) : Bool :=
  (9 ≤ c.toNat && c.toNat ≤ 13) || c.toNat == 0x20 || c.toNat == 0x85 ||
  c.toNat == 0xA0 || c.toNat == 0x1680 ||
  (0x2000 ≤ c.toNat && c.toNat ≤ 0x200A) || c.toNat == 0x2028 ||
  c.toNat == 0x2029 || c.toNat == 0x202F || c.toNat == 0x205F ||
  c.toNat == 0x3000

/-- The text without its leading blanks. -/
def dropBlanks (text : List Char) : List Char :=
  text.dropWhile isBlank

/-- The text without the blanks at either end. -/
def trim (text : List Char) : List Char :=
  (dropBlanks (dropBlanks text).reverse).reverse

/-! ## Ends of trimmed text -/

theorem dropBlanks_length_le (text : List Char) :
    (dropBlanks text).length ≤ text.length :=
  (List.dropWhile_sublist isBlank).length_le

theorem dropBlanks_head_not_blank {text : List Char} {c : Char}
    (head : (dropBlanks text).head? = some c) : isBlank c = false := by
  have := List.head?_dropWhile_not isBlank text
  unfold dropBlanks at head
  rw [head] at this
  simpa using this

theorem dropBlanks_eq_self {text : List Char}
    (head : ∀ c, text.head? = some c → isBlank c = false) :
    dropBlanks text = text := by
  cases text with
  | nil => rfl
  | cons c rest => simp [dropBlanks, head c rfl]

theorem trim_last_not_blank {text : List Char} {c : Char}
    (last : (trim text).getLast? = some c) : isBlank c = false := by
  rw [trim, List.getLast?_reverse] at last
  exact dropBlanks_head_not_blank last

theorem trim_head_not_blank {text : List Char} {c : Char}
    (head : (trim text).head? = some c) : isBlank c = false := by
  unfold trim at head
  rw [List.head?_reverse] at head
  obtain ⟨front, split⟩ : ∃ front, front ++ dropBlanks (dropBlanks text).reverse =
      (dropBlanks text).reverse := List.dropWhile_suffix isBlank
  have found : (dropBlanks text).reverse.getLast? = some c := by
    rw [← split, List.getLast?_append, head]
    rfl
  rw [List.getLast?_reverse] at found
  exact dropBlanks_head_not_blank found

end FieldMesh.Text
