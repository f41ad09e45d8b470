import FieldMesh.Proofs.Decimal.Unsigned
import FieldMesh.Proofs.Formula.Spelling
import FieldMesh.Proofs.Json.Values

/-!
# Texts as tokens

A text is read token by token, without regard to the bytes that each takes up.

* `Reads`: the relation between a text and its tokens, with blanks wherever
  they may stand; `Reads.tokens` ties it to `tokens`;
* `IsName`, `IsFunctionName`: the names that can be read off a text, and those
  that stand by themselves; `Reads.name` reads one back;
* `Reads.number`: so is the text of a number.
-/

/-! ## Digits with a point -/

namespace FieldMesh.Decimal.Point

/-- `point.Stops more`: the digits of a point do not go on in what follows, and
no point comes that could belong to them. -/
structure Stops (point : Point) (more : List Char) : Prop where
  digits : ∀ c ∈ more.head?, c.isDigit = false
  point : point.fraction? = none → more.head? ≠ some '.'

theorem stops_nil (point : Point) : point.Stops [] where
  digits _ member := by cases member
  point _ same := by cases same

/-- Digits with a point are read up to their end. -/
theorem span_spelled {point : Point}
    (digits : ∀ c ∈ point.whole ++ point.fraction, c.isDigit = true)
    {more : List Char} (stops : point.Stops more) :
    span (point.spelled ++ more) = (point, more) := by
  obtain ⟨whole, fraction?⟩ := point
  obtain ⟨inside, behind⟩ := List.forall_mem_append.mp digits
  unfold span
  cases fraction? with
  | none =>
    obtain ⟨taken, left⟩ := Json.span_append_of_all inside more stops.digits
    simp only [spelled, List.append_nil, taken, left]
    split
    · next rest => exact absurd rfl (stops.point rfl)
    · rfl
  | some decimals =>
    have point : ∀ c ∈ ('.' :: (decimals ++ more)).head?, c.isDigit = false := by
      rintro c ⟨⟩
      rfl
    obtain ⟨taken, left⟩ := Json.span_append_of_all inside _ point
    obtain ⟨taken', left'⟩ := Json.span_append_of_all behind more stops.digits
    simp only [fraction, Option.getD_some] at taken' left'
    simp only [spelled, List.append_assoc, List.cons_append, taken, left,
      taken', left']

/-- What is cut off as digits with a point. -/
theorem stops_span (text : List Char) :
    (∀ c ∈ (span text).1.whole ++ (span text).1.fraction,
      c.isDigit = true) ∧
    (span text).1.Stops (span text).2 := by
  have inside (l : List Char) : ∀ c ∈ l.takeWhile Char.isDigit, c.isDigit = true :=
    List.all_eq_true.mp List.all_takeWhile
  unfold span
  split
  · exact ⟨List.forall_mem_append.mpr ⟨inside _, inside _⟩, Json.head_dropWhile, nofun⟩
  · next other =>
    refine ⟨List.forall_mem_append.mpr ⟨inside _, nofun⟩, Json.head_dropWhile,
      fun _ first => ?_⟩
    obtain ⟨rest, same⟩ := List.head?_eq_some_iff.mp first
    exact other rest same

/-- What follows does not matter, if no number goes on in it. -/
theorem span_followed {more : List Char}
    (apart : ∀ c ∈ more.head?, c.isDigit = false ∧ c ≠ '.') (text : List Char) :
    span (text ++ more) = ((span text).1, (span text).2 ++ more) := by
  obtain ⟨digits, stops⟩ := stops_span text
  have whole := spelled_append_span text
  generalize span text = cut at digits stops whole
  obtain ⟨point, after⟩ := cut
  rw [← whole, List.append_assoc]
  refine span_spelled digits ?_
  cases after with
  | nil => exact ⟨fun c first => (apart c first).1, fun _ first => (apart _ first).2 rfl⟩
  | cons c rest => exact ⟨stops.digits, stops.point⟩

end FieldMesh.Decimal.Point

namespace FieldMesh.Formula

open FieldMesh.Text FieldMesh.Decimal

/-! ## Where tokens end -/

/-- Nothing comes that could belong to a number or a name. -/
def Apart (rest : List Char) : Prop := ∀ c ∈ rest.head?, isNameChar c = false

theorem apart_nil : Apart [] := fun _ member => by cases member

theorem apart_cons {c : Char} (separates : isNameChar c = false)
    (rest : List Char) : Apart (c :: rest) := by
  intro d first
  cases first
  exact separates

theorem isNameChar_iff {c : Char} : isNameChar c = true ↔
    isBlank c = false ∧ c ∉ ['(', ')', ',', '+', '-', '*', '/', '%'] := by
  have symbols : Symbol.ofChar? c = none ↔ c ∉ ['+', '-', '*', '/', '%'] := by
    simp only [Symbol.ofChar?, List.find?_eq_none, beq_iff_eq, List.not_mem_nil,
      Symbol.char, List.mem_cons, not_or, ne_comm (a := c)]
    simp
  simp only [isNameChar, Bool.and_eq_true, Bool.not_eq_true', bne_iff_ne,
    Option.isNone_iff_eq_none, symbols, List.mem_cons, not_or]
  tauto

/-- What is no separator by its code point can stand within a name. -/
theorem isNameChar_of_code {c : Char} (solid : isBlank c = false)
    (other : c.toNat ∉ [37, 40, 41, 42, 43, 44, 45, 47]) : isNameChar c = true := by
  refine isNameChar_iff.mpr ⟨solid, fun mark => other ?_⟩
  simp only [List.mem_cons, List.not_mem_nil, or_false] at mark
  rcases mark with rfl | rfl | rfl | rfl | rfl | rfl | rfl | rfl <;> decide

theorem not_blank_of_code {c : Char} (least : 33 ≤ c.toNat) (most : c.toNat < 128) :
    isBlank c = false := by
  rw [Bool.eq_false_iff]
  intro blank
  simp only [isBlank, Bool.or_eq_true, Bool.and_eq_true, decide_eq_true_eq,
    beq_iff_eq] at blank
  omega

theorem code_of_isDigit {c : Char} (digit : c.isDigit = true) :
    48 ≤ c.toNat ∧ c.toNat ≤ 57 := by
  simp only [Char.isDigit, Bool.and_eq_true, decide_eq_true_eq] at digit
  exact digit

theorem isNameChar_of_isDigit {c : Char} (digit : c.isDigit = true) :
    isNameChar c = true := by
  obtain ⟨least, most⟩ := code_of_isDigit digit
  refine isNameChar_of_code (not_blank_of_code (by omega) (by omega)) fun mark => ?_
  simp only [List.mem_cons, List.not_mem_nil, or_false] at mark
  omega

/-- Where no name goes on, no number does. -/
theorem Apart.after {rest : List Char} (apart : Apart rest) :
    ∀ c ∈ rest.head?, c.isDigit = false ∧ c ≠ '.' := by
  intro c first
  have separates := apart c first
  constructor
  · rw [Bool.eq_false_iff]
    intro digit
    rw [isNameChar_of_isDigit digit] at separates
    cases separates
  · rintro rfl
    exact absurd separates (by decide)

/-- A number is malformed if a second point follows, or if it has no digit. -/
theorem readNumber_eq (text : List Char) :
    readNumber text =
      if (Point.span text).2.head? = some '.' then
        .error (String.ofList ((Point.span text).1.spelled ++ ['.']))
      else if (Point.span text).1.isEmpty then
        .error (String.ofList (Point.span text).1.spelled)
      else .ok ⟨.number ((Point.span text).1.value 0), (Point.span text).1.spelled,
        (Point.span text).2⟩ := by
  unfold readNumber
  obtain ⟨point, after⟩ := Point.span text
  simp only
  split
  · rfl
  · next other =>
    have noPoint : after.head? ≠ some '.' := by
      intro first
      obtain ⟨rest, same⟩ := List.head?_eq_some_iff.mp first
      exact other rest same
    rw [if_neg noPoint]

/-- A token that is read with more text behind it. -/
def Reading.followedBy (read : Reading) (more : List Char) : Reading :=
  { read with after := read.after ++ more }

section

variable {more : List Char} (apart : Apart more)

include apart

theorem readNumber_followed (text : List Char) :
    readNumber (text ++ more) = (readNumber text).map (·.followedBy more) := by
  rw [readNumber_eq, readNumber_eq, Point.span_followed apart.after text]
  obtain ⟨point, after⟩ := Point.span text
  have same : (after ++ more).head? = some '.' ↔ after.head? = some '.' := by
    cases after with
    | nil => simpa using fun first => (apart.after '.' first).2
    | cons c rest => rfl
  simp only [same]
  split
  · rfl
  split <;> rfl

/-- A token does not depend on what comes behind it, if that could not belong
to it. -/
theorem readToken_followed (c : Char) (text : List Char) :
    readToken c (text ++ more) = (readToken c text).map (·.followedBy more) := by
  unfold readToken
  split
  · exact readNumber_followed apart (c :: text)
  repeat' split
  all_goals try rfl
  obtain ⟨taken, left⟩ := Json.span_append text apart
  rw [readName, readName, taken, left]
  rfl

end

/-! ## Reading token by token -/

/-- `Reads text tokens`: the text consists of these tokens, with blanks before,
between and behind them. -/
inductive Reads : List Char → List Token → Prop
  | done : Reads [] []
  | blank {c rest tokens} :
    isBlank c = true → Reads rest tokens → Reads (c :: rest) tokens
  | token {c rest read tokens} :
    isBlank c = false → readToken c rest = .ok read → Reads read.after tokens →
    Reads (c :: rest) (read.token :: tokens)

theorem Reads.dropBlanks {text : List Char} {ts : List Token}
    (reads : Reads text ts) : Reads (dropBlanks text) ts := by
  induction reads with
  | done => exact .done
  | blank blank _ ih =>
    rw [Text.dropBlanks, List.dropWhile_cons_of_pos blank]
    exact ih
  | token solid found reads _ =>
    rw [Text.dropBlanks, List.dropWhile_cons_of_neg (by simp [solid])]
    exact .token solid found reads

/-- Blanks end every token. -/
theorem apart_of_blanks {blanks : List Char} (all : ∀ c ∈ blanks, isBlank c = true) :
    Apart blanks := by
  intro c first
  simp [isNameChar, all c (List.mem_of_mem_head? first)]

/-- Blanks behind a text do not matter. -/
theorem Reads.of_append {front blanks : List Char} {ts : List Token}
    (reads : Reads (front ++ blanks) ts) (all : ∀ c ∈ blanks, isBlank c = true) :
    Reads front ts := by
  -- over the tokens of the whole; the last of them ends before the blanks
  generalize whole : front ++ blanks = text at reads
  induction reads generalizing front blanks with
  | done =>
    rw [(List.append_eq_nil_iff.mp whole).1]
    exact .done
  | @blank c rest ts blank _ ih =>
    cases front with
    | nil =>
      subst whole
      exact ih (List.forall_mem_cons.mp all).2 rfl
    | cons d front =>
      cases whole
      exact .blank blank (ih all rfl)
  | @token _ rest read ts solid found _ ih =>
    cases front with
    | nil =>
      subst whole
      exact absurd (all _ List.mem_cons_self) (by simp [solid])
    | cons d front =>
      rw [List.cons_append, List.cons.injEq] at whole
      obtain ⟨rfl, rfl⟩ := whole
      rw [readToken_followed (apart_of_blanks all)] at found
      cases own : readToken d front with
      | error e =>
        rw [own] at found
        cases found
      | ok read =>
        rw [own] at found
        cases found
        show Reads (d :: front) (read.token :: ts)
        exact .token solid own (ih all rfl)

/-- Trimming takes blanks off both ends. -/
theorem exists_trim_append (text : List Char) :
    ∃ blanks, dropBlanks text = trim text ++ blanks ∧
      ∀ c ∈ blanks, isBlank c = true := by
  refine ⟨((dropBlanks text).reverse.takeWhile isBlank).reverse, ?_, fun c member => ?_⟩
  · have parts := List.takeWhile_append_dropWhile (p := isBlank)
      (l := (dropBlanks text).reverse)
    change _ ++ dropBlanks (dropBlanks text).reverse = _ at parts
    rw [trim, ← List.reverse_append, parts, List.reverse_reverse]
  · exact List.all_eq_true.mp List.all_takeWhile c (List.mem_reverse.mp member)

theorem Reads.trim {text : List Char} {ts : List Token} (reads : Reads text ts) :
    Reads (trim text) ts := by
  obtain ⟨blanks, whole, all⟩ := exists_trim_append text
  exact (whole ▸ reads.dropBlanks).of_append all

/-- What is read from the first character on that is not blank. -/
theorem Reads.lexFrom {text : List Char} {ts : List Token} (reads : Reads text ts)
    (offset : Nat) :
    ∃ length, (lexFrom [] offset (Text.dropBlanks text)).ending = .ok length ∧
      (lexFrom [] offset (Text.dropBlanks text)).lexemes.map (·.token) = ts := by
  induction reads generalizing offset with
  | done =>
    rw [Text.dropBlanks, List.dropWhile_nil, Formula.lexFrom]
    exact ⟨offset, rfl, rfl⟩
  | blank blank _ ih =>
    rw [Text.dropBlanks, List.dropWhile_cons_of_pos blank]
    exact ih offset
  | token solid found _ ih =>
    rw [Text.dropBlanks, List.dropWhile_cons_of_neg (by simp [solid]), Formula.lexFrom]
    split
    · next failed => cases found.symm.trans failed
    · next read again =>
      cases found.symm.trans again
      simp only
      rw [lexFrom_done]
      obtain ⟨length, ended, rest⟩ := ih _
      refine ⟨length, ended, ?_⟩
      simp only [List.reverse_singleton, List.singleton_append, List.map_cons]
      rw [rest]

/-- The tokens of a text. -/
theorem Reads.tokens {text : String} {ts : List Token}
    (reads : Reads text.toList ts) : Tokenized text ∧ Formula.tokens text = ts := by
  have clean : Text.dropBlanks (Text.trim text.toList) = Text.trim text.toList :=
    dropBlanks_eq_self fun _ => trim_head_not_blank
  obtain ⟨length, ended, all⟩ := reads.trim.lexFrom 0
  rw [clean] at ended all
  exact ⟨⟨length, ended⟩, all⟩

/-- A character of its own is read, whatever follows. -/
theorem Reads.mark {c : Char} {t : Token} (solid : isBlank c = false)
    (read : ∀ rest, readToken c rest = .ok ⟨t, [c], rest⟩) {rest : List Char}
    {ts : List Token} (reads : Reads rest ts) : Reads (c :: rest) (t :: ts) :=
  .token solid (read rest) reads

theorem Reads.left {rest : List Char} {ts : List Token} (reads : Reads rest ts) :
    Reads ('(' :: rest) (.left :: ts) := reads.mark rfl fun _ => rfl

theorem Reads.right {rest : List Char} {ts : List Token} (reads : Reads rest ts) :
    Reads (')' :: rest) (.right :: ts) := reads.mark rfl fun _ => rfl

theorem Reads.comma {rest : List Char} {ts : List Token} (reads : Reads rest ts) :
    Reads (',' :: rest) (.comma :: ts) := reads.mark rfl fun _ => rfl

theorem Reads.op {rest : List Char} {ts : List Token} (symbol : Symbol)
    (reads : Reads rest ts) : Reads (symbol.char :: rest) (.op symbol :: ts) := by
  cases symbol <;> exact reads.mark rfl fun _ => rfl

/-! ## Names -/

/-- Letters that folding brings in can stand within a name. -/
theorem isNameChar_of_folded {c : Char} (letter : isFoldedLetter c) :
    isNameChar c = true ∧ c.isDigit = false ∧ c ≠ '.' := by
  have large : 97 ≤ c.toNat := by
    rcases letter with ⟨least, -⟩ | ⟨least, -⟩ <;> omega
  have solid : isBlank c = false := by
    rcases letter with ⟨least, most⟩ | ⟨-, solid⟩
    · exact not_blank_of_code (by omega) (by omega)
    · exact solid
  refine ⟨isNameChar_of_code solid fun mark => ?_, ?_, ?_⟩
  · simp only [List.mem_cons, List.not_mem_nil, or_false] at mark
    omega
  · rw [Bool.eq_false_iff]
    intro digit
    have := code_of_isDigit digit
    omega
  · rintro rfl
    exact absurd large (by decide)

/-- Characters that make up a name in lower case. -/
structure IsName (name : String) : Prop where
  lowered : lower name = name
  chars : ∀ c ∈ name.toList, isNameChar c = true

/-- A name that cannot be taken for a number. -/
structure IsFunctionName (name : String) : Prop extends IsName name where
  head : ∃ c others, name.toList = c :: others ∧ c.isDigit = false ∧ c ≠ '.'

/-- What is read as a name is one. -/
theorem isFunctionName_readName {c : Char} {rest : List Char}
    (first : isNameChar c = true) (word : c.isDigit = false) (point : c ≠ '.') :
    IsFunctionName (lower (String.ofList (c :: rest.takeWhile isNameChar))) := by
  have spelled : ∀ d ∈ c :: rest.takeWhile isNameChar, isNameChar d = true := by
    refine List.forall_mem_cons.mpr ⟨first, fun d member => ?_⟩
    exact List.all_eq_true.mp List.all_takeWhile d member
  refine ⟨⟨lower_lower _, fun d member => ?_⟩, ?_⟩
  · rw [lower, String.toList_ofList, String.toList_ofList] at member
    rcases mem_lowerFrom member with own | letter
    · exact spelled d own
    · exact (isNameChar_of_folded letter).1
  · obtain ⟨d, others, whole, origin⟩ :=
      head_lowerFrom [] c (rest.takeWhile isNameChar)
    refine ⟨d, others, ?_, ?_⟩
    · rw [lower, String.toList_ofList, String.toList_ofList, whole]
    · rcases origin with rfl | letter
      · exact ⟨word, point⟩
      · exact (isNameChar_of_folded letter).2

theorem ofChar?_of_isNameChar {c : Char} (inside : isNameChar c = true) :
    Symbol.ofChar? c = none := by
  simp only [isNameChar, Bool.and_eq_true, Option.isNone_iff_eq_none] at inside
  exact inside.2

/-- A token that starts like a name is the name. -/
theorem readToken_of_isNameChar {c : Char} {rest : List Char}
    (first : isNameChar c = true) (word : c.isDigit = false) (point : c ≠ '.') :
    readToken c rest = .ok (readName c rest) := by
  obtain ⟨-, marks⟩ := isNameChar_iff.mp first
  simp only [List.mem_cons, not_or] at marks
  unfold readToken
  rw [if_neg (by simp [word, point]), if_neg marks.1, if_neg marks.2.1,
    if_neg marks.2.2.1, ofChar?_of_isNameChar first]

/-- A name reads back. -/
theorem Reads.name {name : String} (named : IsFunctionName name) {rest : List Char}
    (apart : Apart rest) {ts : List Token} (reads : Reads rest ts) :
    Reads (name.toList ++ rest) (.identifier name :: ts) := by
  obtain ⟨c, others, spelled, word, point⟩ := named.head
  have chars := named.chars
  rw [spelled] at chars ⊢
  obtain ⟨first, inside⟩ := List.forall_mem_cons.mp chars
  have taken := Json.span_append_of_all inside rest apart
  have read : readToken c (others ++ rest) =
      .ok ⟨.identifier name, c :: others, rest⟩ := by
    rw [readToken_of_isNameChar first word point, readName, taken.1, taken.2,
      ← spelled, String.ofList_toList, named.lowered]
  exact .token (isNameChar_iff.mp first).1 read reads

/-! ## Numbers -/

/-- A number that is read as what it was. -/
def ReadsBack (x : Float32) : Prop :=
  number? (formulaText x).toList = some x

/-- The point of a numeral without a sign and an exponent. -/
def pointOf (n : Numeral) : Point :=
  ⟨n.whole, if n.fraction.isEmpty then none else some n.fraction⟩

section

variable {n : Numeral} (standard : Json.Standard n) (plain : n.negative = false)
  (positional : n.exponent = none)

include standard plain positional

/-- The digits of a numeral are read up to their end. -/
theorem span_chars : Point.span n.chars = (pointOf n, []) := by
  have spelled : n.chars = (pointOf n).spelled ++ [] := by
    rw [Numeral.chars, plain, positional, pointOf, Point.spelled]
    cases n.fraction <;> simp
  have fraction : (pointOf n).fraction = n.fraction := by
    rw [pointOf, Point.fraction]
    cases n.fraction <;> rfl
  rw [spelled]
  refine Point.span_spelled (List.forall_mem_append.mpr ⟨standard.whole, ?_⟩)
    (Point.stops_nil _)
  rw [fraction]
  exact standard.fraction

theorem exists_digit : ∃ c others, n.chars = c :: others ∧ c.isDigit = true := by
  obtain ⟨c, others, digits⟩ := List.exists_cons_of_ne_nil standard.some_digit
  have digit := standard.whole c (digits ▸ List.mem_cons_self)
  rw [Numeral.chars, plain, positional, digits]
  exact ⟨c, _, rfl, digit⟩

omit plain positional in
theorem isEmpty_pointOf : (pointOf n).isEmpty = false := by
  simp [Point.isEmpty, pointOf, standard.some_digit]

/-- What the digits stand for. -/
theorem number?_chars : number? n.chars = some ((pointOf n).value 0) := by
  obtain ⟨c, others, spelled, digit⟩ := exists_digit standard plain positional
  have span := span_chars standard plain positional
  have unsigned : splitSign n.chars = (false, n.chars) := by
    rw [spelled]
    unfold splitSign
    split
    · next same => cases same; exact absurd digit (by decide)
    · next same => cases same; exact absurd digit (by decide)
    · rfl
  have lower : c.toLower = c := by
    obtain ⟨-, most⟩ := code_of_isDigit digit
    exact toLower_of_small (.inl (by omega))
  have word : ∀ d others, n.chars.map Char.toLower = d :: others →
      d.isDigit = true := by
    intro d others same
    rw [spelled, List.map_cons, lower] at same
    cases same
    exact digit
  have read : magnitude? n.chars = some ((pointOf n).value 0) := by
    unfold magnitude?
    split
    · next same => exact absurd (word _ _ same) (by decide)
    · next same => exact absurd (word _ _ same) (by decide)
    · next same => exact absurd (word _ _ same) (by decide)
    · simp [span, isEmpty_pointOf standard]
  rw [number?, unsigned]
  simp only [read]
  rfl

end

/-- Written without an exponent. -/
theorem positionalNumeral_plain (style : Style) (negative : Bool) (d : Decimal) :
    (positionalNumeral style negative d).negative = negative ∧
      (positionalNumeral style negative d).exponent = none := by
  unfold positionalNumeral
  simp only
  split
  · exact ⟨rfl, rfl⟩
  split <;> exact ⟨rfl, rfl⟩

/-- The numeral that a formula has for a number that is finite and not
negative. -/
theorem exists_numeral {x : Float32} (finite : x.isFinite = true)
    (plain : Binary32.isNegative x = false) :
    ∃ n, (formulaText x).toList = n.chars ∧ Json.Standard n ∧
      n.negative = false ∧ n.exponent = none := by
  obtain ⟨mantissa, scale, parts⟩ := parts_of_isFinite finite
  rw [plain] at parts
  refine ⟨Style.formula.numeral false mantissa scale, ?_,
    Json.standard_numeral .formula nofun false (Json.mantissa_lt parts) scale, ?_⟩
  · simp only [formulaText, parts, Numeral.text, String.toList_ofList]
  · unfold Style.numeral
    split
    · exact ⟨rfl, rfl⟩
    · exact positionalNumeral_plain _ _ _

/-- A number reads back. -/
theorem Reads.number {x : Float32} (finite : x.isFinite = true)
    (plain : Binary32.isNegative x = false) (readsBack : ReadsBack x)
    {rest : List Char} (apart : Apart rest) {ts : List Token}
    (reads : Reads rest ts) :
    Reads ((formulaText x).toList ++ rest) (.number x :: ts) := by
  obtain ⟨n, text, standard, positive, positional⟩ := exists_numeral finite plain
  obtain ⟨c, others, spelled, digit⟩ := exists_digit standard positive positional
  have value : (pointOf n).value 0 = x := by
    rw [ReadsBack, text, number?_chars standard positive positional] at readsBack
    exact Option.some.inj readsBack
  have read : readToken c others = .ok ⟨.number x, (pointOf n).spelled, []⟩ := by
    rw [readToken, if_pos (by simp [digit]), readNumber_eq, ← spelled,
      span_chars standard positive positional, if_neg nofun,
      if_neg (by simp [isEmpty_pointOf standard]), value]
  rw [text, spelled]
  have read' : readToken c (others ++ rest) =
      .ok ⟨.number x, (pointOf n).spelled, rest⟩ := by
    rw [readToken_followed apart, read]
    rfl
  exact .token (isNameChar_iff.mp (isNameChar_of_isDigit digit)).1 read' reads

end FieldMesh.Formula
