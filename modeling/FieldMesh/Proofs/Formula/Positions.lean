import FieldMesh.Proofs.Formula.Tokens

/-!
# Where tokens stand

Reading goes forward through the trimmed text, one token and the blanks behind
it at a time, and loses nothing of it.

* `Cursor.advance`: one token is read; `lexFrom_eq_advance` says that the
  lexemes of a text are what repeating it gives;
* `Token.Spells`: how a token is written, as the longest text of its kind;
* `Cursor.advance_cases`: what reading one token does, from which the rest
  follows by induction over `Cursor.Passes`;
* `Lexed.Covers`: where the lexemes of a text stand in it;
* `Parser.offset_of_run`: which bytes faults of the parser point to;
* **main result**: `lex_covers`.
-/

namespace FieldMesh.Formula

open FieldMesh.Text FieldMesh.Decimal

/-! ## Bytes -/

theorem byteLength_append (front back : List Char) :
    byteLength (front ++ back) = byteLength front + byteLength back := by
  induction front with
  | nil => exact (Nat.zero_add _).symm
  | cons c front ih => rw [List.cons_append, byteLength, byteLength, ih, Nat.add_assoc]

theorem length_le_byteLength (text : List Char) : text.length ≤ byteLength text := by
  induction text with
  | nil => exact Nat.le_refl 0
  | cons c rest ih =>
    have pos := Char.utf8Size_pos c
    rw [byteLength, List.length_cons]
    omega

theorem utf8ByteSize_ofList (text : List Char) :
    (String.ofList text).utf8ByteSize = byteLength text := by
  induction text with
  | nil => rfl
  | cons c rest ih =>
    rw [String.ofList_cons, String.utf8ByteSize_append, String.utf8ByteSize_singleton, ih,
      byteLength]

/-- A byte of a text that is not within a character. -/
def OnBoundary (text : List Char) (position : Nat) : Prop :=
  String.Pos.Raw.IsValid (String.ofList text) ⟨position⟩

/-- `Cut text start part after`: from the byte `start` on, the text goes on with
`part` and then with `after`. -/
def Cut (text : List Char) (start : Nat) (part after : List Char) : Prop :=
  ∃ before, before ++ (part ++ after) = text ∧ byteLength before = start

namespace Cut

variable {text part after : List Char} {start : Nat}

theorem onBoundary (cut : Cut text start part after) : OnBoundary text start := by
  obtain ⟨before, rfl, rfl⟩ := cut
  rw [OnBoundary, String.Pos.Raw.isValid_ofList]
  exact ⟨before.length, by rw [List.take_left, utf8ByteSize_ofList]⟩

/-- What follows stands behind the part. -/
theorem next (cut : Cut text start part after) {other rest : List Char}
    (whole : other ++ rest = after) :
    Cut text (start + byteLength part) other rest := by
  obtain ⟨before, rfl, rfl⟩ := cut
  refine ⟨before ++ part, ?_, byteLength_append _ _⟩
  rw [whole, List.append_assoc]

theorem split (cut : Cut text start part after) {part' after' : List Char}
    (same : part ++ after = part' ++ after') : Cut text start part' after' := by
  obtain ⟨before, whole, length⟩ := cut
  exact ⟨before, same ▸ whole, length⟩

end Cut

/-! ## Spelling -/

/-- The longest text of a kind, if some text follows. -/
def Longest (kind : List Char → Prop) (part after : List Char) : Prop :=
  kind part ∧ ∀ more rest, more ≠ [] → more ++ rest = after → ¬ kind (part ++ more)

/-- Digits with at most one point among them. -/
def IsNumeral (text : List Char) : Prop :=
  (∀ c ∈ text, c.isDigit = true ∨ c = '.') ∧ text.count '.' ≤ 1

/-- Characters that are neither blanks nor parentheses, commas or operators. -/
def IsUnbroken (text : List Char) : Prop :=
  ∀ c ∈ text, isBlank c = false ∧ c ∉ ['(', ')', ',', '+', '-', '*', '/', '%']

/-- `t.Spells part after`: how a token is written, in front of some text. -/
def Token.Spells (part after : List Char) : Token → Prop
  | .number value => point? part = some value ∧ Longest IsNumeral part after
  | .identifier name =>
    name = lower (String.ofList part) ∧ Longest IsUnbroken part after
  | .op symbol => part = [symbol.char]
  | .left => part = ['(']
  | .right => part = [')']
  | .comma => part = [',']

/-- A malformed number, in front of some text: it has a second point, or it is a
point by itself. -/
def Malformed (part after : List Char) : Prop :=
  (∃ run, part = run ++ ['.'] ∧ IsNumeral run ∧ run.count '.' = 1) ∨
    (part = ['.'] ∧ ∀ c ∈ after.head?, c.isDigit = false ∧ c ≠ '.')

/-- What is read at the start of a text: a token in front of the rest, or a
malformed number. -/
def IsReading (text : List Char) : Except String Reading → Prop
  | .ok read => read.token.Spells read.spelled read.after
  | .error spelled =>
    ∃ part after, part ++ after = text ∧ spelled = String.ofList part ∧
      Malformed part after

/-- A text of a kind is the longest one if what follows cannot go on with it. -/
theorem longest_of_head {kind : List Char → Prop} {part after : List Char}
    (own : kind part)
    (ends : ∀ c ∈ after.head?, ∀ more, ¬ kind (part ++ c :: more)) :
    Longest kind part after := by
  refine ⟨own, fun more rest some whole => ?_⟩
  cases more with
  | nil => exact absurd rfl some
  | cons c more =>
    subst whole
    exact ends c rfl more

theorem isUnbroken_iff {text : List Char} :
    IsUnbroken text ↔ ∀ c ∈ text, isNameChar c = true := by
  simp only [IsUnbroken, isNameChar_iff]

/-- Digits with a point are a numeral. -/
theorem isNumeral_spelled {point : Point}
    (digits : ∀ c ∈ point.whole ++ point.fraction, c.isDigit = true) :
    IsNumeral point.spelled ∧
      point.spelled.count '.' = if point.fraction? = none then 0 else 1 := by
  have none (l : List Char) (all : ∀ c ∈ l, c.isDigit = true) : l.count '.' = 0 := by
    refine List.count_eq_zero_of_not_mem fun member => ?_
    exact absurd (all '.' member) (by decide)
  obtain ⟨whole, _ | fraction⟩ := point
  · have own : Point.spelled ⟨whole, .none⟩ = whole := List.append_nil whole
    have all := (List.forall_mem_append.mp digits).1
    rw [own, IsNumeral, none whole all]
    exact ⟨⟨fun c member => .inl (all c member), Nat.zero_le 1⟩, rfl⟩
  · have own : Point.spelled ⟨whole, some fraction⟩ = whole ++ '.' :: fraction := rfl
    obtain ⟨before, behind⟩ := List.forall_mem_append.mp digits
    have count : (whole ++ '.' :: fraction).count '.' = 1 := by
      rw [List.count_append, List.count_cons_self, none whole before, none fraction behind]
    rw [own, IsNumeral, count]
    refine ⟨⟨fun c member => ?_, Nat.le_refl 1⟩, rfl⟩
    rcases List.mem_append.mp member with inside | inside
    · exact .inl (before c inside)
    · exact (List.mem_cons.mp inside).symm.imp_left (behind c)

/-- Digits with a point are read as the number they stand for. -/
theorem point?_spelled {point : Point}
    (digits : ∀ c ∈ point.whole ++ point.fraction, c.isDigit = true)
    (filled : ¬ point.isEmpty) : point? point.spelled = some (point.value 0) := by
  have read := Point.span_spelled digits (Point.stops_nil point)
  rw [List.append_nil] at read
  rw [point?.eq_def, read]
  exact if_neg filled

/-- Without a digit on either side, a number is a point by itself. -/
theorem spelled_of_isEmpty {point : Point} {after : List Char} {c : Char}
    (empty : point.isEmpty) (stops : point.Stops after)
    (first : (point.spelled ++ after).head? = some c) (mark : c.isDigit = true ∨ c = '.') :
    point.spelled = ['.'] := by
  obtain ⟨whole, fraction?⟩ := point
  simp only [Point.isEmpty, Bool.and_eq_true, List.isEmpty_iff] at empty
  obtain ⟨rfl, noFraction⟩ := empty
  cases fraction? with
  | none =>
    have digit := stops.digits c first
    rcases mark with mark | rfl
    · rw [digit] at mark
      cases mark
    · exact absurd first (stops.point rfl)
  | some fraction =>
    cases (show fraction = [] from noFraction)
    rfl

theorem isReading_readNumber {c : Char} {rest : List Char}
    (mark : c.isDigit = true ∨ c = '.') :
    IsReading (c :: rest) (readNumber (c :: rest)) := by
  obtain ⟨digits, stops⟩ := Point.stops_span (c :: rest)
  have whole := Point.spelled_append_span (c :: rest)
  rw [readNumber_eq]
  generalize Point.span (c :: rest) = cut at digits stops whole
  obtain ⟨point, after⟩ := cut
  obtain ⟨numeral, count⟩ := isNumeral_spelled digits
  simp only at whole stops count numeral ⊢
  by_cases second : after.head? = some '.'
  · rw [if_pos second]
    obtain ⟨rest', rfl⟩ := List.head?_eq_some_iff.mp second
    refine ⟨point.spelled ++ ['.'], rest', by simpa using whole, rfl, .inl ?_⟩
    refine ⟨point.spelled, rfl, numeral, ?_⟩
    rw [count, if_neg fun noPoint => stops.point noPoint second]
  rw [if_neg second]
  have ends : ∀ d ∈ after.head?, d.isDigit = false ∧ d ≠ '.' := fun d next =>
    ⟨stops.digits d next, fun same => second (same ▸ next)⟩
  by_cases empty : point.isEmpty
  · rw [if_pos empty]
    have own := spelled_of_isEmpty empty stops (by rw [whole]; rfl) mark
    exact ⟨point.spelled, after, whole, rfl, .inr ⟨own, ends⟩⟩
  · rw [if_neg empty]
    refine ⟨point?_spelled digits empty, longest_of_head numeral fun d next more longer => ?_⟩
    obtain ⟨other, noPoint⟩ := ends d next
    rcases longer.1 d (by simp) with digit | rfl
    · rw [other] at digit
      cases digit
    · exact noPoint rfl

theorem char_of_ofChar? {c : Char} {symbol : Symbol}
    (found : Symbol.ofChar? c = some symbol) : symbol.char = c := by
  simpa using List.find?_some found

theorem longest_readName {c : Char} (rest : List Char) (inside : isNameChar c = true) :
    Longest IsUnbroken (readName c rest).spelled (readName c rest).after := by
  refine longest_of_head (isUnbroken_iff.mpr ?_) fun d next more longer => ?_
  · exact List.forall_mem_cons.mpr ⟨inside, List.all_eq_true.mp List.all_takeWhile⟩
  · have ended : isNameChar d = false := Json.head_dropWhile d next
    rw [isUnbroken_iff.mp longer d (by simp)] at ended
    cases ended

theorem isReading_readToken {c : Char} (rest : List Char) (solid : isBlank c = false) :
    IsReading (c :: rest) (readToken c rest) := by
  unfold readToken
  split
  · next mark => exact isReading_readNumber (by simpa using mark)
  split
  · next same => exact congrArg (fun c => [c]) same
  split
  · next same => exact congrArg (fun c => [c]) same
  split
  · next same => exact congrArg (fun c => [c]) same
  split
  · next symbol found => exact congrArg (fun c => [c]) (char_of_ofChar? found).symm
  · next left right comma _ none =>
    have inside : isNameChar c = true := by
      simp [isNameChar, solid, left, right, comma, none]
    exact ⟨rfl, longest_readName rest inside⟩

/-! ## Reading on -/

/-- Where reading has come to: a byte, and the text from there on. -/
structure Cursor where
  position : Nat
  rest : List Char

/-- What reading on comes to. -/
inductive Advance where
  /-- The text has ended. -/
  | finish
  | token (lexeme : Lexeme) (next : Cursor)
  /-- A malformed number, and where in it reading has stopped. -/
  | fault (e : ParseError) (stopped : Cursor)

/-- Reads one token and the blanks behind it. -/
def Cursor.advance (s : Cursor) : Advance :=
  match s.rest with
  | [] => .finish
  | c :: rest =>
    match readToken c rest with
    | .error spelled =>
      let (point, after) := Point.span (c :: rest)
      .fault ⟨.invalidNumber spelled, s.position⟩
        ⟨s.position + byteLength point.spelled, after⟩
    | .ok read =>
      let stop := s.position + byteLength read.spelled
      .token ⟨read.token, s.position, stop⟩
        ⟨stop + byteLength (read.after.takeWhile isBlank), dropBlanks read.after⟩

/-- Lexemes are read one after the other. -/
theorem lexFrom_eq_advance (done : List Lexeme) (s : Cursor) :
    lexFrom done s.position s.rest =
      match s.advance with
      | .finish => ⟨done.reverse, .ok s.position⟩
      | .token lexeme next => lexFrom (lexeme :: done) next.position next.rest
      | .fault e _ => ⟨done.reverse, .error e⟩ := by
  obtain ⟨position, _ | ⟨c, rest⟩⟩ := s
  · rw [lexFrom]
    rfl
  · rw [lexFrom, Cursor.advance]
    simp only
    split
    · next failed => rw [failed]
    · next read => rw [read]

/-- `s.Passes lexemes t`: reading on from `s` again and again gives these lexemes
and comes to `t`. -/
inductive Cursor.Passes : Cursor → List Lexeme → Cursor → Prop
  | stay (s : Cursor) : Passes s [] s
  | token {s t u l lexemes} :
    s.advance = .token l t → Passes t lexemes u → Passes s (l :: lexemes) u

/-- Reading ends where the text does, or at a malformed number. -/
def Cursor.Ends (s : Cursor) (ending : Except ParseError Nat) : Prop :=
  (s.advance = .finish ∧ ending = .ok s.position) ∨
    ∃ e stopped, s.advance = .fault e stopped ∧ ending = .error e

/-- `s.In text`: reading has come to a character of the text that is not
blank, or to its end. -/
structure Cursor.In (s : Cursor) (text : List Char) : Prop where
  cut : Cut text s.position [] s.rest
  solid : ∀ c ∈ s.rest.head?, isBlank c = false

/-- From one byte to another there are only blanks. -/
def BlankBetween (text : List Char) (start stop : Nat) : Prop :=
  ∃ blanks after, Cut text start blanks after ∧ stop = start + byteLength blanks ∧
    ∀ c ∈ blanks, isBlank c = true

/-- `l.StandsIn text`: a lexeme takes up some characters of the text, and its
token is written with them. -/
def Lexeme.StandsIn (l : Lexeme) (text : List Char) : Prop :=
  ∃ part after, Cut text l.start part after ∧ part ≠ [] ∧
    l.stop = l.start + byteLength part ∧ l.token.Spells part after

theorem BlankBetween.le {text : List Char} {start stop : Nat}
    (blank : BlankBetween text start stop) : start ≤ stop := by
  obtain ⟨blanks, after, -, rfl, -⟩ := blank
  exact Nat.le_add_right _ _

/-- A text that does not end with a blank has no blanks in front of its end. -/
theorem BlankBetween.eq_byteLength {text : List Char} {start : Nat}
    (solid : ∀ c ∈ text.getLast?, isBlank c = false)
    (blank : BlankBetween text start (byteLength text)) : start = byteLength text := by
  obtain ⟨blanks, after, ⟨before, whole, rfl⟩, length, all⟩ := blank
  have behind : after = [] := by
    rw [← whole, byteLength_append, byteLength_append] at length
    have few := length_le_byteLength after
    exact List.eq_nil_of_length_eq_zero (by omega)
  rw [behind, List.append_nil] at whole
  cases last : blanks.getLast? with
  | none =>
    rw [List.getLast?_eq_none_iff.mp last] at length
    exact length.symm
  | some c =>
    have ends : c ∈ text.getLast? := by
      rw [← whole, List.getLast?_append, last]
      rfl
    have blank := all c (List.mem_of_getLast? last)
    rw [solid c ends] at blank
    cases blank

theorem Lexeme.StandsIn.lt {l : Lexeme} {text : List Char} (stands : l.StandsIn text) :
    l.start < l.stop := by
  obtain ⟨part, after, -, filled, stop, -⟩ := stands
  have pos := List.length_pos_iff.mpr filled
  have few := length_le_byteLength part
  omega

namespace Cursor

variable {text : List Char} {s t : Cursor} {l : Lexeme} {lexemes : List Lexeme}
  {ending : Except ParseError Nat}

/-! ## One token -/

theorem length_of_token (read : s.advance = .token l t) :
    t.rest.length < s.rest.length := by
  obtain ⟨position, _ | ⟨c, rest⟩⟩ := s
  · cases read
  · simp only [advance] at read
    split at read
    · cases read
    next reading found =>
    cases read
    exact Nat.lt_of_le_of_lt (dropBlanks_length_le _) (readToken_after_length found)

theorem rest_of_finish (read : s.advance = .finish) : s.rest = [] := by
  obtain ⟨position, _ | ⟨c, rest⟩⟩ := s
  · rfl
  · simp only [advance] at read
    split at read <;> cases read

/-- What reading one token does. -/
theorem In.token (inside : s.In text) (read : s.advance = .token l t) :
    t.In text ∧ l.start = s.position ∧ l.StandsIn text ∧
      BlankBetween text l.stop t.position := by
  obtain ⟨cut, solid⟩ := inside
  obtain ⟨position, _ | ⟨c, rest⟩⟩ := s
  · cases read
  simp only [advance] at read
  split at read
  · cases read
  next reading found =>
  cases read
  have spelled := isReading_readToken rest (solid c rfl)
  rw [found] at spelled
  obtain ⟨whole, filled⟩ := readToken_split found
  have own : Cut text position reading.spelled reading.after := cut.split whole.symm
  have blanks := own.next (List.takeWhile_append_dropWhile (p := isBlank))
  have all : ∀ c ∈ reading.after.takeWhile isBlank, isBlank c = true :=
    List.all_eq_true.mp List.all_takeWhile
  exact ⟨⟨blanks.next (List.nil_append _), Json.head_dropWhile⟩, rfl,
    ⟨_, _, own, filled, rfl, spelled⟩, ⟨_, _, blanks, rfl, all⟩⟩

/-- Where a malformed number stands, and that reading stops at a character
of it or behind it. -/
theorem In.fault {e : ParseError} (inside : s.In text) (read : s.advance = .fault e t) :
    e.offset = s.position ∧
      (∃ part after, Cut text e.offset part after ∧
        e.fault = .invalidNumber (String.ofList part) ∧ Malformed part after) ∧
      Cut text t.position [] t.rest := by
  obtain ⟨cut, solid⟩ := inside
  obtain ⟨position, _ | ⟨c, rest⟩⟩ := s
  · cases read
  simp only [advance] at read
  split at read
  next spelled found =>
    cases read
    have number := isReading_readToken rest (solid c rfl)
    rw [found] at number
    obtain ⟨part, after, whole, rfl, malformed⟩ := number
    refine ⟨rfl, ⟨part, after, cut.split whole.symm, rfl, malformed⟩, ?_⟩
    have digits := Point.spelled_append_span (c :: rest)
    exact (cut.split digits.symm).next (List.nil_append _)
  next => cases read

/-! ## The whole text -/

/-- Reading on passes the lexemes of a text and comes to their ending. -/
theorem exists_passes (s : Cursor) :
    ∃ last, s.Passes (lexFrom [] s.position s.rest).lexemes last ∧
      last.Ends (lexFrom [] s.position s.rest).ending := by
  induction h : s.rest.length using Nat.strongRecOn generalizing s with
  | ind n ih =>
    subst h
    rw [lexFrom_eq_advance]
    cases read : s.advance with
    | finish => exact ⟨s, .stay s, .inl ⟨read, rfl⟩⟩
    | fault e stopped => exact ⟨s, .stay s, .inr ⟨e, stopped, read, rfl⟩⟩
    | token l t =>
      obtain ⟨last, passes, ends⟩ := ih _ (length_of_token read) t rfl
      simp only
      rw [lexFrom_done]
      exact ⟨last, .token read passes, ends⟩

theorem length_of_passes (passes : s.Passes lexemes t) :
    lexemes.length + t.rest.length ≤ s.rest.length := by
  induction passes with
  | stay => exact Nat.le_of_eq (Nat.zero_add _)
  | token read _ ih =>
    have shorter := length_of_token read
    rw [List.length_cons]
    omega

theorem In.of_passes (inside : s.In text) (passes : s.Passes lexemes t) : t.In text := by
  induction passes with
  | stay => exact inside
  | token read _ ih => exact ih (inside.token read).1

/-- Lexemes stand in the text one behind the other, from where reading began. -/
theorem In.pairwise_passes (inside : s.In text) (passes : s.Passes lexemes t) :
    (∀ l ∈ lexemes, s.position ≤ l.start ∧ l.StandsIn text) ∧
      lexemes.Pairwise fun a b => a.stop ≤ b.start := by
  induction passes with
  | stay => exact ⟨nofun, .nil⟩
  | token read _ ih =>
    obtain ⟨inside', start, stands, blank⟩ := inside.token read
    obtain ⟨each, apart⟩ := ih inside'
    refine ⟨List.forall_mem_cons.mpr ⟨⟨start.ge, stands⟩, fun m member => ?_⟩,
      List.pairwise_cons.mpr ⟨fun m member => ?_, apart⟩⟩
    · have order := stands.lt
      exact ⟨by have := blank.le; have := (each m member).1; omega, (each m member).2⟩
    · exact blank.le.trans (each m member).1

/-- The first lexeme stands where reading began, and between two lexemes, and
behind the last one, there are only blanks. -/
theorem In.isChain_passes (inside : s.In text) (passes : s.Passes lexemes t) :
    (∀ l ∈ lexemes.head?, l.start = s.position) ∧
      lexemes.IsChain (fun a b => BlankBetween text a.stop b.start) ∧
      ∀ l ∈ lexemes.getLast?, BlankBetween text l.stop t.position := by
  induction passes with
  | stay => exact ⟨nofun, .nil, nofun⟩
  | @token s t u l lexemes read passes ih =>
    obtain ⟨inside', start, -, blank⟩ := inside.token read
    obtain ⟨first, chain, last⟩ := ih inside'
    refine ⟨?_, List.isChain_cons.mpr ⟨fun m next => first m next ▸ blank, chain⟩, ?_⟩
    · rintro _ ⟨⟩
      exact start
    · cases lexemes with
      | nil =>
        cases passes
        rintro _ ⟨⟩
        exact blank
      | cons m lexemes => exact last

end Cursor

/-- `read.Covers text`: where the lexemes of a text stand in it, and where
reading ends. -/
structure Lexed.Covers (read : Lexed) (text : List Char) : Prop where
  stands : ∀ l ∈ read.lexemes, l.start < l.stop ∧ l.StandsIn text
  boundary : ∀ l ∈ read.lexemes, OnBoundary text l.start ∧ OnBoundary text l.stop
  apart : read.lexemes.Pairwise fun a b => a.stop ≤ b.start
  first : ∀ l ∈ read.lexemes.head?, l.start = 0
  between : read.lexemes.IsChain fun a b => BlankBetween text a.stop b.start
  finish : ∀ length, read.ending = .ok length →
    length = byteLength text ∧ ∀ l ∈ read.lexemes.getLast?, l.stop = byteLength text
  fault : ∀ e, read.ending = .error e →
    (∃ part after, Cut text e.offset part after ∧
      e.fault = .invalidNumber (String.ofList part) ∧ Malformed part after) ∧
    (read.lexemes = [] → e.offset = 0) ∧
    ∀ l ∈ read.lexemes.getLast?, BlankBetween text l.stop e.offset

theorem Lexeme.StandsIn.onBoundary {l : Lexeme} {text : List Char}
    (stands : l.StandsIn text) : OnBoundary text l.start ∧ OnBoundary text l.stop := by
  obtain ⟨part, after, cut, -, stop, -⟩ := stands
  exact ⟨cut.onBoundary, stop ▸ (cut.next (List.nil_append after)).onBoundary⟩

/-- Reading a text that neither begins nor ends with a blank covers it. -/
theorem Cursor.Passes.covers {text : List Char} {lexemes : List Lexeme} {last : Cursor}
    {ending : Except ParseError Nat} (inside : Cursor.In ⟨0, text⟩ text)
    (solid : ∀ c ∈ text.getLast?, isBlank c = false)
    (passes : Cursor.Passes ⟨0, text⟩ lexemes last) (ends : last.Ends ending) :
    Lexed.Covers ⟨lexemes, ending⟩ text := by
  have inside' := inside.of_passes passes
  obtain ⟨each, apart⟩ := inside.pairwise_passes passes
  obtain ⟨first, between, behind⟩ := inside.isChain_passes passes
  refine ⟨fun l member => ?_, fun l member => (each l member).2.onBoundary, apart, first,
    between, ?_, ?_⟩
  · have stands := (each l member).2
    exact ⟨stands.lt, stands⟩
  · rintro length rfl
    rcases ends with ⟨finished, same⟩ | ⟨e, stopped, -, failed⟩
    · cases same
      have whole : last.position = byteLength text := by
        obtain ⟨before, rfl, length⟩ := inside'.cut
        rw [← length, Cursor.rest_of_finish finished, List.append_nil, List.append_nil]
      refine ⟨whole, fun l member => ?_⟩
      exact (whole ▸ behind l member : BlankBetween _ _ _).eq_byteLength solid
    · cases failed
  · rintro e rfl
    rcases ends with ⟨finished, same⟩ | ⟨e', stopped, failed, same⟩
    · cases same
    · cases same
      obtain ⟨offset, number, -⟩ := inside'.fault failed
      refine ⟨number, ?_, fun l member => offset ▸ behind l member⟩
      rintro rfl
      cases passes
      exact offset

/-! ## Places of faults -/

/-- The parser points to a lexeme, or to where reading ends. -/
theorem Parser.offset_of_run {ending : Except ParseError Nat} {parser : Parser}
    {lexemes : List Lexeme} {e : ParseError}
    (failed : parser.run ending lexemes = .error e) :
    (∃ l ∈ lexemes, e.offset = l.start) ∨ ending = .error e ∨ ending = .ok e.offset := by
  have offset {α : Type} {place : Nat} {result : Except ParseFault α}
      (failed : located place result = .error e) : e.offset = place := by
    cases result with
    | ok a => cases failed
    | error f => cases failed; rfl
  fun_induction run ending parser lexemes with
  | case1 _ e' ended =>
    cases failed
    exact .inr (.inl ended)
  | case2 _ length ended => exact .inr (.inr (by rw [ended, offset failed]))
  | case3 _ _ _ _ _ _ rest ih =>
    refine (ih failed).imp_left ?_
    rintro ⟨l, member, same⟩
    exact ⟨l, List.mem_cons_of_mem _ (List.mem_cons_of_mem _ member), same⟩
  | case4 _ lexeme rest _ e' stepped =>
    cases failed
    exact .inl ⟨lexeme, List.mem_cons_self, offset stepped⟩
  | case5 _ lexeme rest _ next _ ih =>
    refine (ih failed).imp_left ?_
    rintro ⟨l, member, same⟩
    exact ⟨l, List.mem_cons_of_mem _ member, same⟩

/-- Errors of a text point to one of its lexemes, or to where reading ends. -/
theorem offset_of_parse {text : String} {e : ParseError} (failed : parse text = .error e) :
    (∃ l ∈ (lex text).lexemes, e.offset = l.start) ∨
      (lex text).ending = .error e ∨ (lex text).ending = .ok e.offset := by
  unfold parse at failed
  split at failed
  · cases failed
  · next lexemes ending _ read =>
    rw [read]
    cases ran : Parser.run ending .start lexemes with
    | ok tree =>
      rw [ran] at failed
      cases failed
    | error reason =>
      rw [ran] at failed
      cases failed
      exact Parser.offset_of_run ran

/-! ## Main result -/

/-- **Where tokens stand.** Reading the trimmed text of a formula again and again
comes to its end, or to a malformed number, after at most one call for each
character and one more. It always stands at the beginning of a character or at
the end. The tokens that are read stand one behind the other: none is empty,
the first one begins with the text, only blanks lie between two of them, and at
the end the last one ends with the text. Numbers and names are as long as they
can be. Whatever is wrong with the text is placed at one of the tokens, at the
malformed number or at the end. -/
theorem lex_covers (text : String) :
    let trimmed := trim text.toList
    (∃ last, Cursor.Passes ⟨0, trimmed⟩ (lex text).lexemes last ∧
      last.Ends (lex text).ending ∧
      (lex text).lexemes.length + 1 ≤ trimmed.length + 1) ∧
    (∀ lexemes s, Cursor.Passes ⟨0, trimmed⟩ lexemes s →
      OnBoundary trimmed s.position ∧
      ∀ e stopped, s.advance = .fault e stopped →
        OnBoundary trimmed stopped.position) ∧
    (lex text).Covers trimmed ∧
    ∀ e, parse text = .error e →
      (∃ l ∈ (lex text).lexemes, e.offset = l.start) ∨
        (lex text).ending = .error e ∨ e.offset = byteLength trimmed := by
  intro trimmed
  have start : Cursor.In ⟨0, trimmed⟩ trimmed :=
    ⟨⟨[], rfl, rfl⟩, fun _ => trim_head_not_blank⟩
  obtain ⟨last, passes, ends⟩ := Cursor.exists_passes ⟨0, trimmed⟩
  have covers : (lex text).Covers trimmed :=
    passes.covers start (fun _ => trim_last_not_blank) ends
  have few := Cursor.length_of_passes passes
  refine ⟨⟨last, passes, ends, Nat.succ_le_succ (Nat.le_of_add_right_le few)⟩, ?_, covers,
    fun e failed => ?_⟩
  · intro lexemes s passes
    have inside := start.of_passes passes
    exact ⟨inside.cut.onBoundary, fun e stopped read => (inside.fault read).2.2.onBoundary⟩
  · exact (offset_of_parse failed).imp_right fun ended =>
      ended.imp_right fun ended => (covers.finish e.offset ended).1

/-- A letter of two bytes stands in front of a malformed number. -/
theorem lex_covers_malformed :
    let e : ParseError := ⟨.invalidNumber "1.2.", 5⟩
    parse " é + 1.2.3 " = .error e ∧
      ((∃ l ∈ (lex " é + 1.2.3 ").lexemes, e.offset = l.start) ∨
        (lex " é + 1.2.3 ").ending = .error e ∨
        e.offset = byteLength (trim " é + 1.2.3 ".toList)) := by
  intro e
  have failed : parse " é + 1.2.3 " = .error e := by with_unfolding_all rfl
  exact ⟨failed, (lex_covers " é + 1.2.3 ").2.2.2 e failed⟩

end FieldMesh.Formula
