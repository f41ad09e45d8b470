import FieldMesh.Decimal.Reading
import FieldMesh.Formula.ParseError
import FieldMesh.Formula.Token
import FieldMesh.Text.Blank
import FieldMesh.Text.LowerCase

/-!
# Lexemes

Cuts the trimmed text of a formula into tokens and notes the bytes that each
takes up. Reading goes on until the text ends or a number is malformed, so a
text has lexemes and then an ending.

* `readToken` reads the token at the start of a text; by `readToken_split`
  it takes at least one character and loses none;
* `lex` repeats it, skipping the blanks after each token. By `lexFrom_done`
  what was read before only stands in front of what is read next.
-/

namespace FieldMesh.Formula

open FieldMesh.Text FieldMesh.Decimal

/-- Bytes that characters take up in UTF-8. -/
def byteLength : List Char → Nat
  | [] => 0
  | c :: rest => c.utf8Size + byteLength rest

/-- A token with the bytes of the trimmed text at which it starts and
stops. -/
structure Lexeme where
  token : Token
  start : Nat
  stop : Nat
  deriving DecidableEq

/-- The lexemes of a text in order, then the length of the text or the fault
that ended reading. -/
structure Lexed where
  lexemes : List Lexeme
  ending : Except ParseError Nat

/-! ## One token -/

/-- A token read off a text: the characters it is spelled with, and what
follows them. -/
structure Reading where
  token : Token
  spelled : List Char
  after : List Char

/-- Whether a character can stand within a name: all can but blanks,
parentheses, commas and operator signs. -/
def isNameChar (c : Char) : Bool :=
  !isBlank c && c != '(' && c != ')' && c != ',' && (Symbol.ofChar? c).isNone

/-- Reads the number at the start of a text, or gives the text of the
malformed one. -/
def readNumber (text : List Char) : Except String Reading :=
  let (point, after) := Point.span text
  match after with
  | '.' :: _ => .error (String.ofList (point.spelled ++ ['.']))
  | _ =>
    if point.isEmpty then .error (String.ofList point.spelled)
    else .ok ⟨.number (point.value 0), point.spelled, after⟩

/-- Reads the name that starts with a character and folds it to lower
case. -/
def readName (c : Char) (rest : List Char) : Reading :=
  let spelled := c :: rest.takeWhile isNameChar
  ⟨.identifier (lower (String.ofList spelled)), spelled,
    rest.dropWhile isNameChar⟩

/-- Reads the token at the start of a text that does not start with a
blank. -/
def readToken (c : Char) (rest : List Char) : Except String Reading :=
  if c.isDigit || c == '.' then readNumber (c :: rest)
  else if c = '(' then .ok ⟨.left, [c], rest⟩
  else if c = ')' then .ok ⟨.right, [c], rest⟩
  else if c = ',' then .ok ⟨.comma, [c], rest⟩
  else match Symbol.ofChar? c with
    | some symbol => .ok ⟨.op symbol, [c], rest⟩
    | none => .ok (readName c rest)

/-- A number is spelled with at least one character, and nothing of the text
is lost. -/
theorem readNumber_split {text : List Char} {read : Reading}
    (found : readNumber text = .ok read) :
    read.spelled ++ read.after = text ∧ read.spelled ≠ [] := by
  have whole := Point.spelled_append_span text
  unfold readNumber at found
  generalize Point.span text = span at found whole
  obtain ⟨point, after⟩ := span
  simp only at found whole
  split at found
  · cases found
  · split at found
    · cases found
    · next digits =>
      cases found
      refine ⟨whole, fun empty => digits ?_⟩
      obtain ⟨noWhole, noFraction⟩ := List.append_eq_nil_iff.mp empty
      cases fraction : point.fraction? with
      | none => simp [Point.isEmpty, Point.fraction, noWhole, fraction]
      | some _ => simp [fraction] at noFraction

/-- A token is spelled with at least one character, and nothing of the text
is lost. -/
theorem readToken_split {c : Char} {rest : List Char} {read : Reading}
    (found : readToken c rest = .ok read) :
    read.spelled ++ read.after = c :: rest ∧ read.spelled ≠ [] := by
  unfold readToken at found
  split at found
  · exact readNumber_split found
  · repeat' split at found
    all_goals cases found
    all_goals simp [readName, List.takeWhile_append_dropWhile]

theorem readToken_after_length {c : Char} {rest : List Char} {read : Reading}
    (found : readToken c rest = .ok read) :
    read.after.length < (c :: rest).length := by
  obtain ⟨whole, spelled⟩ := readToken_split found
  rw [← whole, List.length_append]
  have := List.length_pos_iff.mpr spelled
  omega

/-! ## The whole text -/

/-- Reads lexemes from the byte `offset` on; `done` holds those read before,
last one first. -/
def lexFrom (done : List Lexeme) (offset : Nat) (text : List Char) : Lexed :=
  match text with
  | [] => ⟨done.reverse, .ok offset⟩
  | c :: rest =>
    match _found : readToken c rest with
    | .error spelled =>
      ⟨done.reverse, .error ⟨.invalidNumber spelled, offset⟩⟩
    | .ok read =>
      let stop := offset + byteLength read.spelled
      let blanks := byteLength (read.after.takeWhile isBlank)
      lexFrom (⟨read.token, offset, stop⟩ :: done) (stop + blanks)
        (dropBlanks read.after)
termination_by text.length
decreasing_by
  exact Nat.lt_of_le_of_lt (dropBlanks_length_le _)
    (readToken_after_length _found)

/-- The lexemes of the trimmed text. -/
def lex (text : String) : Lexed := lexFrom [] 0 (trim text.toList)

/-- What was read before is kept in front. -/
theorem lexFrom_done (done : List Lexeme) (offset : Nat) (text : List Char) :
    lexFrom done offset text =
      ⟨done.reverse ++ (lexFrom [] offset text).lexemes,
        (lexFrom [] offset text).ending⟩ := by
  induction h : text.length using Nat.strongRecOn generalizing
    done offset text with
  | ind n ih =>
    subst h
    unfold lexFrom
    split
    · simp
    · split
      · simp
      · next read found =>
        have shorter := Nat.lt_of_le_of_lt (dropBlanks_length_le read.after)
          (readToken_after_length found)
        simp only
        rw [ih _ shorter _ _ _ rfl, ih _ shorter [_] _ _ rfl]
        simp

end FieldMesh.Formula
