import Mathlib.Tactic.IntervalCases
import FieldMesh.Json.Token
import FieldMesh.Json.Writer

/-!
# Texts and numbers are read back

What is written for a text or a number is one token, and reading it gives the
text or the number again.

* `readQuoted_escape`: texts, whatever their characters are;
* `Numeral.Standard`: numerals that are written as documents want them;
  `readNumeral_chars` reads them back;
* `Lexes`: some characters are some tokens, whatever comes after them. This is
  put together from parts by `Lexes.append`.
-/

namespace FieldMesh.Json

open FieldMesh.Decimal

/-! ## Texts -/

/-- Control characters are the first 32. -/
theorem eq_ofNat_of_control {c : Char} (control : ¬ 0x20 ≤ c.toNat) :
    ∃ code < 32, c = Char.ofNat code :=
  ⟨c.toNat, Nat.lt_of_not_le control, c.ofNat_toNat.symm⟩

/-- What is written for a character reads back as that character. -/
theorem readPieces_escape (done : List Piece) (c : Char) (rest : List Char) :
    readPieces done (escape c ++ rest) = readPieces (.char c :: done) rest := by
  by_cases quote : c = '"'
  · subst quote
    rfl
  by_cases backslash : c = '\\'
  · subst backslash
    rfl
  by_cases plain : 0x20 ≤ c.toNat
  · rw [escape, if_neg quote, if_neg backslash, if_pos plain]
    show readPieces done (c :: rest) = _
    rw [readPieces]
    · rw [if_neg]
      rintro (low | same)
      · exact Nat.not_lt.mpr plain low
      · exact backslash same
    all_goals simp [quote, backslash]
  · obtain ⟨code, small, rfl⟩ := eq_ofNat_of_control plain
    clear quote backslash plain
    interval_cases code <;> rfl

theorem joinPieces_chars (text : List Char) :
    joinPieces (text.map Piece.char) = some text := by
  induction text with
  | nil => rfl
  | cons c rest ih => rw [List.map_cons, joinPieces, ih, Option.map_some]

theorem readPieces_escapes (text : List Char) (done : List Piece)
    (rest : List Char) :
    readPieces done (text.flatMap escape ++ '"' :: rest) =
      some (done.reverse ++ text.map Piece.char, rest) := by
  induction text generalizing done with
  | nil => simp [readPieces]
  | cons c text ih =>
    rw [List.flatMap_cons, List.append_assoc, readPieces_escape, ih]
    simp

/-- A quoted text reads back. -/
theorem readQuoted_escape (text rest : List Char) :
    readQuoted (text.flatMap escape ++ '"' :: rest) =
      some (some (String.ofList text), rest) := by
  rw [readQuoted, readPieces_escapes]
  simp [joinPieces_chars]

/-! ## Numbers -/

/-- Nothing comes that could belong to a number. -/
def Boundary (rest : List Char) : Prop :=
  ∀ c ∈ rest.head?, c.isDigit = false ∧ c ≠ '.' ∧ c ≠ 'e' ∧ c ≠ 'E'

theorem boundary_nil : Boundary [] := fun _ member => by cases member

/-- A numeral as documents want it: digits, and no zero too many in front. -/
structure Standard (n : Numeral) : Prop where
  some_digit : n.whole ≠ []
  whole : ∀ c ∈ n.whole, c.isDigit = true
  lone_zero : n.whole.head? = some '0' → n.whole.length ≤ 1
  fraction : ∀ c ∈ n.fraction, c.isDigit = true

/-- What is left when characters of a kind are cut off starts with another
kind. -/
theorem head_dropWhile {kind : Char → Bool} {text : List Char} :
    ∀ c ∈ (text.dropWhile kind).head?, kind c = false := by
  intro c first
  have stopped := List.head?_dropWhile_not kind text
  rw [Option.mem_def.mp first] at stopped
  simpa using stopped

/-- Where a text that goes on with another kind of character is cut does not
depend on what it goes on with. -/
theorem span_append {kind : Char → Bool} (front : List Char) {rest : List Char}
    (after : ∀ c ∈ rest.head?, kind c = false) :
    (front ++ rest).takeWhile kind = front.takeWhile kind ∧
      (front ++ rest).dropWhile kind = front.dropWhile kind ++ rest := by
  induction front with
  | nil =>
    cases rest with
    | nil => exact ⟨rfl, rfl⟩
    | cons c rest =>
      have other := after c rfl
      simp [other]
  | cons c front ih =>
    rw [List.cons_append]
    cases own : kind c with
    | true => simp [own, ih]
    | false => simp [own]

/-- Characters of a kind are cut off a text up to the first that is not. -/
theorem span_append_of_all {kind : Char → Bool} {front : List Char}
    (inside : ∀ c ∈ front, kind c = true) (rest : List Char)
    (after : ∀ c ∈ rest.head?, kind c = false) :
    (front ++ rest).takeWhile kind = front ∧
      (front ++ rest).dropWhile kind = rest := by
  obtain ⟨taken, left⟩ := span_append front after
  have whole : (front ++ []).takeWhile kind = front ++ [].takeWhile kind :=
    List.takeWhile_append_of_pos inside
  have atEnd : (front ++ []).dropWhile kind = [].dropWhile kind :=
    List.dropWhile_append_of_pos inside
  rw [List.append_nil, List.takeWhile_nil, List.append_nil] at whole
  rw [List.append_nil, List.dropWhile_nil] at atEnd
  rw [taken, left, whole, atEnd]
  exact ⟨rfl, rfl⟩

/-- Digits are read up to the first character that is none. -/
theorem readDigits_append {digits rest : List Char} (filled : digits ≠ [])
    (each : ∀ c ∈ digits, c.isDigit = true)
    (after : ∀ c ∈ rest.head?, c.isDigit = false) :
    readDigits (digits ++ rest) = some (digits, rest) := by
  obtain ⟨taken, left⟩ := span_append_of_all each rest after
  rw [readDigits, taken, left]
  simp [filled]

theorem readWhole_append {n : Numeral} (standard : Standard n) {rest : List Char}
    (after : ∀ c ∈ rest.head?, c.isDigit = false) :
    readWhole (n.whole ++ rest) = some (n.whole, rest) := by
  rw [readWhole, readDigits_append standard.some_digit standard.whole after]
  refine if_neg ?_
  rintro ⟨zero, long⟩
  exact absurd (standard.lone_zero zero) (Nat.not_le.mpr long)

/-- The characters of an exponent, if there is one. -/
def exponentPart (exponent : Option Int) : List Char :=
  match exponent with
  | none => []
  | some exponent => exponentChars exponent

/-- After the digits of a numeral comes nothing that looks like one. -/
theorem head?_exponentPart (exponent : Option Int) {rest : List Char}
    (boundary : Boundary rest) :
    ∀ c ∈ (exponentPart exponent ++ rest).head?, c.isDigit = false ∧ c ≠ '.' := by
  intro c first
  cases exponent with
  | none => exact ⟨(boundary c first).1, (boundary c first).2.1⟩
  | some exponent =>
    cases first
    decide

theorem readFraction_append {n : Numeral} (standard : Standard n)
    {rest : List Char} (after : ∀ c ∈ rest.head?, c.isDigit = false ∧ c ≠ '.') :
    readFraction ((if n.fraction.isEmpty then [] else '.' :: n.fraction) ++ rest) =
      some (n.fraction, rest) := by
  cases digits : n.fraction with
  | nil =>
    cases rest with
    | nil => rfl
    | cons c rest =>
      have other := (after c rfl).2
      show readFraction (c :: rest) = _
      unfold readFraction
      split
      · next same => exact absurd (List.cons.inj same).1 other
      · rfl
  | cons c others =>
    have filled : n.fraction ≠ [] := by rw [digits]; nofun
    have read : readDigits (n.fraction ++ rest) = some (n.fraction, rest) :=
      readDigits_append filled standard.fraction fun c first => (after c first).1
    rwa [digits] at read

theorem readExponent_append (exponent : Option Int) {rest : List Char}
    (boundary : Boundary rest) :
    readExponent (exponentPart exponent ++ rest) = some (exponent, rest) := by
  cases exponent with
  | none =>
    cases rest with
    | nil => rfl
    | cons c rest =>
      obtain ⟨-, -, small, large⟩ := boundary c rfl
      show readExponent (c :: rest) = _
      rw [readExponent, if_neg (not_or.mpr ⟨small, large⟩)]
  | some exponent =>
    have digits : readDigits (Nat.toDigits 10 exponent.natAbs ++ rest) =
        some (Nat.toDigits 10 exponent.natAbs, rest) :=
      readDigits_append Nat.toDigits_ne_nil
        (fun c member => Nat.isDigit_of_mem_toDigits (by decide) (by decide) member)
        fun c first => (boundary c first).1
    have value : digitsValue (Nat.toDigits 10 exponent.natAbs) = exponent.natAbs :=
      Nat.ofDigitChars_ten_toDigits
    show readExponent ('e' :: (if exponent < 0 then '-' else '+') ::
      (Nat.toDigits 10 exponent.natAbs ++ rest)) = _
    rw [readExponent, if_pos (.inl rfl)]
    by_cases below : exponent < 0
    · rw [if_pos below]
      simp only [readSign, digits, bind, Option.bind, value, if_true]
      have negated : -(exponent.natAbs : Int) = exponent := by omega
      rw [negated]
      rfl
    · rw [if_neg below]
      simp only [readSign, digits, bind, Option.bind, value, Bool.false_eq_true,
        if_false]
      have same : (exponent.natAbs : Int) = exponent := by omega
      rw [same]
      rfl

/-- Reads a number after its sign. -/
def readUnsigned (negative : Bool) (text : List Char) :
    Option (Numeral × List Char) := do
  let (whole, rest) ← readWhole text
  let (fraction, rest) ← readFraction rest
  let (exponent, rest) ← readExponent rest
  return (⟨negative, whole, fraction, exponent⟩, rest)

theorem readNumeral_minus (text : List Char) :
    readNumeral ('-' :: text) = readUnsigned true text := rfl

theorem readNumeral_digit {c : Char} (digit : c.isDigit = true) (text : List Char) :
    readNumeral (c :: text) = readUnsigned false (c :: text) := by
  have unsigned : c ≠ '-' := by
    rintro rfl
    exact absurd digit (by decide)
  simp [readNumeral, readUnsigned, unsigned]

/-- What is written for a number reads back. -/
theorem readNumeral_chars {n : Numeral} (standard : Standard n) {rest : List Char}
    (boundary : Boundary rest) :
    readNumeral (n.chars ++ rest) = some (n, rest) := by
  let tail := exponentPart n.exponent ++ rest
  let middle := (if n.fraction.isEmpty then [] else '.' :: n.fraction) ++ tail
  -- each part ends because the next one does not start with a digit
  have after := head?_exponentPart n.exponent boundary
  have point : ∀ c ∈ middle.head?, c.isDigit = false := by
    intro c first
    simp only [middle] at first
    split at first
    · exact (after c first).1
    · cases first
      decide
  have fraction : readFraction middle = some (n.fraction, tail) :=
    readFraction_append standard after
  have exponent : readExponent tail = some (n.exponent, rest) :=
    readExponent_append n.exponent boundary
  have unsigned (negative : Bool) : readUnsigned negative (n.whole ++ middle) =
      some (⟨negative, n.whole, n.fraction, n.exponent⟩, rest) := by
    simp only [readUnsigned, readWhole_append standard point, fraction, exponent,
      bind, Option.bind]
    rfl
  have spelled : n.chars ++ rest =
      (if n.negative then ['-'] else []) ++ (n.whole ++ middle) := by
    simp only [Numeral.chars, List.append_assoc, middle, tail]
    rfl
  rw [spelled]
  cases negative : n.negative with
  | true =>
    refine (readNumeral_minus _).trans ((unsigned true).trans ?_)
    rw [← negative]
  | false =>
    obtain ⟨c, others, digits⟩ := List.exists_cons_of_ne_nil standard.some_digit
    have digit := standard.whole c (digits ▸ List.mem_cons_self)
    have read := unsigned false
    rw [digits] at read
    have signless := readNumeral_digit digit (others ++ middle)
    rw [digits]
    refine signless.trans (read.trans ?_)
    rw [← digits, ← negative]

/-! ## Tokens -/

/-- Some characters are some tokens, if what comes after them is as `after`
says. Every token takes a character, so that the bound on their number does
not matter. -/
def Lexes (chars : List Char) (all : List Token) (after : List Char → Prop) :
    Prop :=
  ∀ done fuel rest, after rest → (chars ++ rest).length ≤ fuel →
    ∃ fuel', rest.length ≤ fuel' ∧ readTokens done fuel (chars ++ rest) =
      readTokens (all.reverse ++ done) fuel' rest

/-- Whatever comes. -/
def Anything (_ : List Char) : Prop := True

namespace Lexes

variable {chars chars' : List Char} {all all' : List Token}
  {after after' : List Char → Prop}

theorem mono (lexes : Lexes chars all after)
    (weaker : ∀ rest, after' rest → after rest) : Lexes chars all after' :=
  fun done fuel rest follows => lexes done fuel rest (weaker rest follows)

theorem nil : Lexes [] [] after :=
  fun _ fuel _ _ enough => ⟨fuel, enough, rfl⟩

theorem append (first : Lexes chars all after) (second : Lexes chars' all' after')
    (meets : ∀ rest, after' rest → after (chars' ++ rest)) :
    Lexes (chars ++ chars') (all ++ all') after' := by
  intro done fuel rest follows enough
  rw [List.append_assoc] at enough
  obtain ⟨fuel₁, enough₁, run₁⟩ := first done fuel _ (meets rest follows) enough
  obtain ⟨fuel₂, enough₂, run₂⟩ := second _ fuel₁ rest follows enough₁
  refine ⟨fuel₂, enough₂, ?_⟩
  rw [List.append_assoc, run₁, run₂, List.reverse_append, List.append_assoc]

/-- What is complete by itself can be followed by anything. -/
theorem then_ (first : Lexes chars all Anything)
    (second : Lexes chars' all' after') :
    Lexes (chars ++ chars') (all ++ all') after' :=
  first.append second fun _ _ => trivial

theorem blank {c : Char} (space : isSpace c = true) : Lexes [c] [] Anything := by
  intro done fuel rest _ enough
  cases fuel with
  | zero => cases enough
  | succ fuel =>
    refine ⟨fuel + 1, Nat.le_of_succ_le enough, ?_⟩
    show readTokens done (fuel + 1) (c :: rest) = readTokens done (fuel + 1) rest
    rw [readTokens, readTokens, List.dropWhile_cons_of_pos space]

theorem blanks (n : Nat) : Lexes (List.replicate n ' ') [] Anything := by
  induction n with
  | zero => exact nil
  | succ n ih => exact (blank (c := ' ') rfl).then_ ih

/-- Characters that are read as one token. -/
theorem token {c : Char} {t : Token} (solid : isSpace c = false)
    (read : ∀ rest, after rest → readToken c (chars ++ rest) = some (t, rest)) :
    Lexes (c :: chars) [t] after := by
  intro done fuel rest follows enough
  cases fuel with
  | zero => cases enough
  | succ fuel =>
    have shorter : rest.length ≤ (chars ++ rest).length := by
      rw [List.length_append]
      exact Nat.le_add_left _ _
    refine ⟨fuel, Nat.le_trans shorter (Nat.le_of_succ_le_succ enough), ?_⟩
    show readTokens done (fuel + 1) (c :: (chars ++ rest)) = _
    rw [readTokens, List.dropWhile_cons_of_neg (by simp [solid])]
    simp only [read rest follows]
    rfl

end Lexes

/-- A text in quotes is one token. -/
theorem lexes_quoted (s : String) :
    Lexes (quoted s).toList [.atom (.text (some s))] Anything := by
  have spelled : (quoted s).toList =
      '"' :: (s.toList.flatMap escape ++ ['"']) := by
    simp [quoted]
  rw [spelled]
  refine Lexes.token rfl fun rest _ => ?_
  have read := readQuoted_escape s.toList rest
  rw [List.append_assoc]
  show (readQuoted (s.toList.flatMap escape ++ '"' :: rest)).map _ = _
  rw [read]
  simp

/-- A digit or a sign starts a number. -/
theorem readToken_number {c : Char} (start : c = '-' ∨ c.isDigit = true)
    (rest : List Char) :
    readToken c rest =
      (readNumeral (c :: rest)).map fun (n, rest) => (.atom (.number n), rest) := by
  unfold readToken
  split
  case h_11 => rfl
  all_goals
    rcases start with minus | digit
    · exact absurd minus (by decide)
    · exact absurd digit (by decide)

/-- A number is one token, if nothing comes that could belong to it. -/
theorem lexes_number {n : Numeral} (standard : Standard n) :
    Lexes n.text.toList [.atom (.number n)] Boundary := by
  have start : ∃ c others, n.chars = c :: others ∧ (c = '-' ∨ c.isDigit = true) := by
    obtain ⟨c, others, digits⟩ := List.exists_cons_of_ne_nil standard.some_digit
    cases negative : n.negative with
    | true =>
      rw [Numeral.chars, negative]
      exact ⟨'-', _, rfl, .inl rfl⟩
    | false =>
      rw [Numeral.chars, negative, digits]
      exact ⟨c, _, rfl, .inr (standard.whole c (digits ▸ List.mem_cons_self))⟩
  obtain ⟨c, others, spelled, start⟩ := start
  have solid : isSpace c = false := by
    rw [← Bool.not_eq_true]
    intro space
    simp only [isSpace, Bool.or_eq_true, beq_iff_eq] at space
    rcases space with ((rfl | rfl) | rfl) | rfl <;> exact absurd start (by decide)
  have text : n.text.toList = c :: others := by simp [Numeral.text, spelled]
  rw [text]
  refine Lexes.token solid fun rest boundary => ?_
  have read := readNumeral_chars standard boundary
  rw [spelled, List.cons_append] at read
  rw [readToken_number start, read]
  rfl

end FieldMesh.Json
