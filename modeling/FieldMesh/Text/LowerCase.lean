import FieldMesh.Text.CaseTable

/-!
# Lower-casing

Names are compared by their lower-case form. This file folds text by the
full Unicode rules: every character maps to its lower-case form, and a
capital sigma that ends a word maps to the final form of the letter. Main
statements:

* `lowerChar_ascii`: on ASCII the map is the familiar one;
* `lowerFrom_eq_flatMap`: without a sigma, text is folded character by
  character.
-/

namespace FieldMesh.Text

/-! ## One character -/

/-- Whether the run holds a code point. -/
def LowerRun.contains (run : LowerRun) (code : Nat) : Bool :=
  run.first ≤ code && code ≤ run.last && (code - run.first) % run.step == 0

/-- The lower-case form of a character on its own. Only U+0130 has a form of
two characters. -/
def lowerChar (c : Char) : List Char :=
  if c.toNat < 128 then [c.toLower]
  else if c.toNat = 0x130 then ['i', '\u0307']
  else match lowerRuns.find? (·.contains c.toNat) with
    | some run => [Char.ofNat (c.toNat + run.shift).toNat]
    | none => [c]

theorem lowerChar_ascii {c : Char} (ascii : c.toNat < 128) :
    lowerChar c = [c.toLower] := by
  simp [lowerChar, ascii]

/-- Whether a character is a letter with case. -/
def isCased (c : Char) : Bool :=
  if c.toNat < 128 then c.isAlpha
  else casedRanges.any fun range => range.1 ≤ c.toNat && c.toNat ≤ range.2

/-- Whether casing looks through a character, as through an apostrophe. -/
def isCaseIgnorable (c : Char) : Bool :=
  if c.toNat < 128 then [0x27, 0x2E, 0x3A, 0x5E, 0x60].contains c.toNat
  else caseIgnorableRanges.any fun range =>
    range.1 ≤ c.toNat && c.toNat ≤ range.2

/-! ## Final sigma -/

/-- Whether the first character that casing does not look through is a cased
letter. -/
def startsCased (text : List Char) : Bool :=
  match text.dropWhile isCaseIgnorable with
  | [] => false
  | c :: _ => isCased c

/-- The lower-case form of `text`, where `before` is the text read so far,
last character first. -/
def lowerFrom (before : List Char) : List Char → List Char
  | [] => []
  | c :: rest =>
    let folded :=
      if c = 'Σ' then
        [if startsCased before && !startsCased rest then 'ς' else 'σ']
      else lowerChar c
    folded ++ lowerFrom (c :: before) rest

/-- The lower-case form of a text. -/
def lower (text : String) : String :=
  String.ofList (lowerFrom [] text.toList)

/-- A text in which no sigma occurs is folded one character at a time. -/
theorem lowerFrom_eq_flatMap (before : List Char) {text : List Char}
    (noSigma : 'Σ' ∉ text) : lowerFrom before text = text.flatMap lowerChar := by
  induction text generalizing before with
  | nil => rfl
  | cons c rest ih =>
    have other : c ≠ 'Σ' := fun same => noSigma (same ▸ List.mem_cons_self)
    simp [lowerFrom, other,
      ih (c :: before) fun found => noSigma (List.mem_cons_of_mem _ found)]

end FieldMesh.Text
