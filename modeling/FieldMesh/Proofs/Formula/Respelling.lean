import FieldMesh.Proofs.Formula.Reading
import FieldMesh.Proofs.Formula.Tokens
import FieldMesh.Proofs.Text.LetterCase

/-!
# Texts spelled differently

What a text stands for does not depend on the case of its letters, nor on the
blanks between its tokens, which only move the places of faults.

* `lexFrom_toLower`: a text in small letters has the lexemes of the text;
* `Respaced`: a text of tokens, and the same text with more blanks before,
  between and behind them. By `Respaced.reads` both have the same tokens;
* **main results**: `parse_congr` for letter case, and `fault_parse_congr` for
  blanks.
-/

namespace FieldMesh.Formula

open FieldMesh.Text FieldMesh.Decimal

/-! ## Letter case -/

theorem ofChar?_toLower (c : Char) : Symbol.ofChar? c.toLower = Symbol.ofChar? c :=
  apply_toLower (by decide) c

theorem isNameChar_toLower (c : Char) : isNameChar c.toLower = isNameChar c :=
  apply_toLower (by decide) c

theorem byteLength_toLower (text : List Char) :
    byteLength (text.map Char.toLower) = byteLength text := by
  induction text with
  | nil => rfl
  | cons c rest ih => rw [List.map_cons, byteLength, byteLength, utf8Size_toLower, ih]

/-- Digits and points are no letters. -/
theorem spelled_toLower {point : Point}
    (digits : ∀ c ∈ point.whole ++ point.fraction, c.isDigit = true) :
    point.spelled.map Char.toLower = point.spelled := by
  have small : ∀ c ∈ point.spelled, c.toLower = c := by
    intro c member
    have mark : c.isDigit = true ∨ c = '.' := by
      obtain ⟨whole, _ | fraction⟩ := point
      · exact .inl (digits c member)
      · rcases List.mem_append.mp member with inside | behind
        · exact .inl (digits c (List.mem_append_left _ inside))
        · exact (List.mem_cons.mp behind).symm.imp_left fun inside =>
            digits c (List.mem_append_right _ inside)
    rcases mark with digit | rfl
    · obtain ⟨-, most⟩ := code_of_isDigit digit
      exact toLower_of_small (.inl (by omega))
    · rfl
  rw [List.map_congr_left small, List.map_id']

theorem toLower_eq_point (c : Char) : c.toLower = '.' ↔ c = '.' :=
  toLower_eq_iff (by decide) c

/-- Digits with a point are the same among small letters. -/
theorem span_toLower (text : List Char) :
    Point.span (text.map Char.toLower) =
      ((Point.span text).1, (Point.span text).2.map Char.toLower) := by
  obtain ⟨digits, stops⟩ := Point.stops_span text
  have whole := Point.spelled_append_span text
  generalize Point.span text = cut at digits stops whole
  obtain ⟨point, after⟩ := cut
  -- the number stays as it is, and only what follows it is made small
  rw [← whole, List.map_append, spelled_toLower digits]
  refine Point.span_spelled digits ?_
  cases after with
  | nil => exact ⟨stops.digits, stops.point⟩
  | cons c rest =>
    refine ⟨?_, fun none first => stops.point none ?_⟩
    · rintro d ⟨⟩
      rw [isDigit_toLower]
      exact stops.digits c rfl
    · exact congrArg some ((toLower_eq_point c).mp (Option.some.inj first))

/-- A token in small letters, in front of small letters. -/
def Reading.toLower (read : Reading) : Reading :=
  { read with
    spelled := read.spelled.map Char.toLower
    after := read.after.map Char.toLower }

theorem readNumber_toLower (text : List Char) :
    readNumber (text.map Char.toLower) = (readNumber text).map Reading.toLower := by
  obtain ⟨digits, -⟩ := Point.stops_span text
  rw [readNumber_eq, readNumber_eq, span_toLower]
  generalize Point.span text = cut at digits
  obtain ⟨point, after⟩ := cut
  have second : (after.map Char.toLower).head? = some '.' ↔ after.head? = some '.' := by
    cases after with
    | nil => exact Iff.rfl
    | cons c rest => simpa using toLower_eq_point c
  have same := spelled_toLower digits
  simp only [second]
  split
  · rfl
  split
  · rfl
  · simp only [Except.map, Reading.toLower, same]

theorem readName_toLower (c : Char) (rest : List Char) :
    readName c.toLower (rest.map Char.toLower) = (readName c rest).toLower := by
  rw [readName, takeWhile_toLower isNameChar_toLower,
    dropWhile_toLower isNameChar_toLower, ← List.map_cons, lower_toLower]
  rfl

theorem readToken_toLower (c : Char) (rest : List Char) :
    readToken c.toLower (rest.map Char.toLower) =
      (readToken c rest).map Reading.toLower := by
  have left : c.toLower = '(' ↔ c = '(' := toLower_eq_iff (by decide) c
  have right : c.toLower = ')' ↔ c = ')' := toLower_eq_iff (by decide) c
  have comma : c.toLower = ',' ↔ c = ',' := toLower_eq_iff (by decide) c
  have number : (c.toLower.isDigit || c.toLower == '.') = (c.isDigit || c == '.') := by
    rw [isDigit_toLower, Bool.eq_iff_iff]
    simp [toLower_eq_point]
  unfold readToken
  simp only [left, right, comma, number, ofChar?_toLower]
  split
  · exact readNumber_toLower (c :: rest)
  repeat' split
  · rfl
  · rfl
  · rfl
  · rfl
  · exact congrArg Except.ok (readName_toLower c rest)

/-- Small letters have the same lexemes. -/
theorem lexFrom_toLower (done : List Lexeme) (offset : Nat) (text : List Char) :
    lexFrom done offset (text.map Char.toLower) = lexFrom done offset text := by
  fun_induction lexFrom done offset text with
  | case1 => rw [List.map_nil, lexFrom]
  | case2 done offset c rest spelled failed =>
    have small := readToken_toLower c rest
    rw [failed] at small
    rw [List.map_cons, lexFrom]
    split
    · next failed' =>
      cases small.symm.trans failed'
      rfl
    · next found => cases small.symm.trans found
  | case3 done offset c rest read found stop blanks ih =>
    have small := readToken_toLower c rest
    rw [found] at small
    rw [List.map_cons, lexFrom]
    split
    · next failed => cases small.symm.trans failed
    · next found' =>
      cases small.symm.trans found'
      simp only [Reading.toLower, byteLength_toLower, dropBlanks_toLower,
        takeWhile_toLower isBlank_toLower]
      exact ih

/-- Texts that differ in letter case have the same lexemes. -/
theorem lex_congr {s t : String} (same : SameLetters s t) : lex s = lex t := by
  rw [lex, lex, ← lexFrom_toLower, ← trim_toLower, same, trim_toLower,
    lexFrom_toLower]

/-- **Letter case.** Texts that differ in letter case stand for the same tree, or
have the same error. -/
theorem parse_congr {s t : String} (same : SameLetters s t) :
    parse s = parse t := by
  rw [parse, parse, lex_congr same]

/-! ## Blanks -/

/-- By its first character, a token is a number, a character of its own or a
name. -/
theorem readToken_cases (c : Char) :
    (∀ rest, readToken c rest = readNumber (c :: rest)) ∨
    (∃ t, ∀ rest, readToken c rest = .ok ⟨t, [c], rest⟩) ∨
    ∀ rest, readToken c rest = .ok (readName c rest) := by
  by_cases number : (c.isDigit || c == '.') = true
  · exact .inl fun rest => if_pos number
  unfold readToken
  simp only [if_neg number]
  by_cases left : c = '('
  · exact .inr (.inl ⟨.left, fun rest => if_pos left⟩)
  by_cases right : c = ')'
  · exact .inr (.inl ⟨.right, fun rest => (if_neg left).trans (if_pos right)⟩)
  by_cases comma : c = ','
  · refine .inr (.inl ⟨.comma, fun rest => ?_⟩)
    rw [if_neg left, if_neg right, if_pos comma]
  simp only [if_neg left, if_neg right, if_neg comma]
  cases Symbol.ofChar? c with
  | some symbol => exact .inr (.inl ⟨.op symbol, fun rest => rfl⟩)
  | none => exact .inr (.inr fun rest => rfl)

section

variable {read : Reading} {more : List Char}
  (next : ∀ d ∈ more.head?, d ∈ read.after.head? ∨ isNameChar d = false)

include next

theorem readNumber_again {text : List Char} (found : readNumber text = .ok read) :
    readNumber (read.spelled ++ more) = .ok { read with after := more } := by
  obtain ⟨digits, stops⟩ := Point.stops_span text
  rw [readNumber_eq] at found
  generalize Point.span text = cut at digits stops found
  obtain ⟨point, after⟩ := cut
  simp only at found digits stops
  split at found
  · cases found
  next noPoint =>
  split at found
  · cases found
  next some =>
  cases found
  have noPoint' : more.head? ≠ Option.some '.' := by
    intro first
    rcases next '.' first with before | separates
    · exact noPoint before
    · exact absurd separates (by decide)
  have stops' : point.Stops more := by
    refine ⟨fun d first => ?_, fun _ => noPoint'⟩
    rcases next d first with before | separates
    · exact stops.digits d before
    · rw [Bool.eq_false_iff]
      intro digit
      rw [isNameChar_of_isDigit digit] at separates
      cases separates
  rw [readNumber_eq, Point.span_spelled digits stops']
  simp only [if_neg noPoint', if_neg some]

/-- A token is read again off the characters that it is spelled with, if what
follows begins as before, or with what ends every name. -/
theorem readToken_again {c : Char} {rest : List Char}
    (found : readToken c rest = .ok read) :
    ∃ others, read.spelled = c :: others ∧
      readToken c (others ++ more) = .ok { read with after := more } := by
  rcases readToken_cases c with number | ⟨t, mark⟩ | word
  · rw [number] at found
    obtain ⟨whole, filled⟩ := readNumber_split found
    obtain ⟨d, others, spelled⟩ := List.exists_cons_of_ne_nil filled
    have again := readNumber_again next found
    rw [spelled] at whole again
    cases whole
    refine ⟨others, spelled, ?_⟩
    rw [number]
    exact again.trans (by rw [spelled])
  · rw [mark] at found
    cases found
    exact ⟨[], rfl, mark more⟩
  · rw [word] at found
    cases found
    refine ⟨rest.takeWhile isNameChar, rfl, ?_⟩
    have ended : Apart more := fun d first =>
      (next d first).elim (Json.head_dropWhile d) id
    obtain ⟨taken, left⟩ := Json.span_append_of_all
      (List.all_eq_true.mp List.all_takeWhile) more ended
    rw [word, readName, taken, left]
    rfl

end

/-- `Respaced text text'`: a text consists of tokens, and the other one is made
from it by putting blanks in before, between and behind the tokens. -/
inductive Respaced : List Char → List Char → Prop
  | done : Respaced [] []
  /-- A blank of the text. -/
  | kept {c text text'} :
    isBlank c = true → Respaced text text' → Respaced (c :: text) (c :: text')
  /-- A blank that is put in. -/
  | added {c text text'} :
    isBlank c = true → Respaced text text' → Respaced text (c :: text')
  | token {c rest read text'} :
    isBlank c = false → readToken c rest = .ok read →
    Respaced read.after text' → Respaced (c :: rest) (read.spelled ++ text')

/-- With more blanks, a text starts as before or with what ends every name. -/
theorem Respaced.head {text text' : List Char} (respaced : Respaced text text') :
    ∀ d ∈ text'.head?, d ∈ text.head? ∨ isNameChar d = false := by
  have separates {c : Char} (blank : isBlank c = true) : isNameChar c = false := by
    simp [isNameChar, blank]
  cases respaced with
  | done => exact fun d first => .inl first
  | kept blank _ => exact fun d first => .inl first
  | added blank _ =>
    rintro d ⟨⟩
    exact .inr (separates blank)
  | token _ found _ =>
    obtain ⟨whole, filled⟩ := readToken_split found
    obtain ⟨d, others, spelled⟩ := List.exists_cons_of_ne_nil filled
    rw [spelled] at whole ⊢
    cases whole
    exact fun d first => .inl first

/-- The tokens of a text are those of the text with more blanks. -/
theorem Respaced.reads {text text' : List Char} (respaced : Respaced text text') :
    ∃ ts, Reads text ts ∧ Reads text' ts := by
  induction respaced with
  | done => exact ⟨[], .done, .done⟩
  | kept blank _ ih =>
    obtain ⟨ts, reads, reads'⟩ := ih
    exact ⟨ts, .blank blank reads, .blank blank reads'⟩
  | added blank _ ih =>
    obtain ⟨ts, reads, reads'⟩ := ih
    exact ⟨ts, reads, .blank blank reads'⟩
  | token solid found inner ih =>
    obtain ⟨ts, reads, reads'⟩ := ih
    -- behind the token now comes what came before, or a blank
    obtain ⟨others, spelled, again⟩ := readToken_again inner.head found
    have reads'' := Reads.token solid again reads'
    rw [spelled]
    exact ⟨_, .token solid found reads, reads''⟩

/-! ## Texts that consist of tokens -/

theorem Reads.append_blanks {front blanks : List Char} {ts : List Token}
    (reads : Reads front ts) (all : ∀ c ∈ blanks, isBlank c = true) :
    Reads (front ++ blanks) ts := by
  induction reads with
  | done =>
    rw [List.nil_append]
    induction blanks with
    | nil => exact .done
    | cons c rest ih =>
      obtain ⟨first, others⟩ := List.forall_mem_cons.mp all
      exact .blank first (ih others)
  | blank blank _ ih => exact .blank blank ih
  | @token c rest read ts solid found _ ih =>
    have followed : readToken c (rest ++ blanks) = .ok (read.followedBy blanks) := by
      rw [readToken_followed (apart_of_blanks all), found]
      rfl
    have reads := Reads.token solid followed ih
    exact reads

theorem Reads.of_dropBlanks {text : List Char} {ts : List Token}
    (reads : Reads (Text.dropBlanks text) ts) : Reads text ts := by
  induction text with
  | nil => exact reads
  | cons c rest ih =>
    cases blank : isBlank c with
    | true =>
      rw [Text.dropBlanks, List.dropWhile_cons_of_pos blank] at reads
      exact .blank blank (ih reads)
    | false =>
      rwa [Text.dropBlanks, List.dropWhile_cons_of_neg (by simp [blank])] at reads

/-- A text that is read up to its end consists of tokens. -/
theorem exists_reads_of_lexFrom {done : List Lexeme} {offset length : Nat}
    {text : List Char} (clean : ∀ c, text.head? = some c → isBlank c = false)
    (ended : (lexFrom done offset text).ending = .ok length) :
    ∃ ts, Reads text ts := by
  fun_induction lexFrom done offset text with
  | case1 => exact ⟨[], .done⟩
  | case2 => cases ended
  | case3 done offset c rest read found stop blanks ih =>
    obtain ⟨ts, reads⟩ := ih (fun _ => dropBlanks_head_not_blank) ended
    exact ⟨_, .token (clean c rfl) found reads.of_dropBlanks⟩

theorem Reads.respaced {text : List Char} {ts : List Token} (reads : Reads text ts) :
    Respaced text text := by
  induction reads with
  | done => exact .done
  | blank blank _ ih => exact .kept blank ih
  | token solid found _ ih => exact (readToken_split found).1 ▸ .token solid found ih

/-- The texts that blanks can be put into are those that consist of tokens up
to their end. -/
theorem respaced_self_iff {text : String} :
    Respaced text.toList text.toList ↔ Tokenized text := by
  constructor
  · rintro respaced
    obtain ⟨ts, reads, -⟩ := respaced.reads
    exact reads.tokens.1
  · rintro ⟨length, ended⟩
    obtain ⟨ts, reads⟩ :=
      exists_reads_of_lexFrom (fun _ => trim_head_not_blank) ended
    obtain ⟨blanks, whole, all⟩ := exists_trim_append text.toList
    exact (whole ▸ reads.append_blanks all).of_dropBlanks.respaced

/-! ## Texts of the same tokens -/

theorem fault_parse {text : String} (tokenized : Tokenized text) :
    (parse text).mapError (·.fault) =
      if tokens text = [] then .ok none
      else (Parser.start.readAll (words (tokens text)) >>= Parser.finish).map some := by
  obtain ⟨length, ended⟩ := tokenized
  unfold parse tokens
  generalize lex text = lexed at ended
  obtain ⟨lexemes, ending⟩ := lexed
  cases ended
  cases lexemes with
  | nil => rfl
  | cons lexeme rest =>
    rw [if_neg (by simp), ← Parser.fault_run]
    show (Except.map some (Parser.run (.ok length) .start (lexeme :: rest))).mapError _ =
      ((Parser.run (.ok length) .start (lexeme :: rest)).mapError _).map some
    cases Parser.run (.ok length) .start (lexeme :: rest) <;> rfl

/-- **Blanks.** A text and the same text with more blanks stand for the same
tree, or have the same fault. -/
theorem fault_parse_congr {s t : String} (respaced : Respaced s.toList t.toList) :
    (parse s).mapError (·.fault) = (parse t).mapError (·.fault) := by
  obtain ⟨ts, reads, reads'⟩ := respaced.reads
  obtain ⟨first, same⟩ := reads.tokens
  obtain ⟨second, same'⟩ := reads'.tokens
  rw [fault_parse first, fault_parse second, same, same']

end FieldMesh.Formula
