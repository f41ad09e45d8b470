import FieldMesh.Json.Reader
import FieldMesh.Proofs.Json.Lexing

/-!
# Documents are read back

A document reads back as what it was, in either layout, if its numbers are
written as documents want them and its texts are whole.

* `tokensOf`: the tokens of a document, however it is laid out;
* `readValue_tokensOf`: from its tokens a document is built again;
* `lexes_prettyAt`, `lexes_compact`: its lines are its tokens, and so is its
  text without blanks;
* **main results**: `read_pretty` and `read_compact`.
-/

namespace FieldMesh.Json

/-! ## The tokens of a document -/

mutual

/-- The tokens of a value. -/
def tokensOf : Json → List Token
  | .null => [.atom .null]
  | .bool value => [.atom (.bool value)]
  | .number n => [.atom (.number n)]
  | .text content => [.atom (.text content)]
  | .list items => .openList :: (itemTokens items ++ [.closeList])
  | .record fields => .openRecord :: (fieldTokens fields ++ [.closeRecord])

/-- The tokens of the items of a list. -/
def itemTokens : List Json → List Token
  | [] => []
  | [item] => tokensOf item
  | item :: rest => tokensOf item ++ .comma :: itemTokens rest

/-- The tokens of the fields of a record. -/
def fieldTokens : List (Option String × Json) → List Token
  | [] => []
  | [(name, value)] => .atom (.text name) :: .colon :: tokensOf value
  | (name, value) :: rest =>
    .atom (.text name) :: .colon ::
      (tokensOf value ++ .comma :: fieldTokens rest)

end

/-! ## From tokens to values -/

/-- A value goes to the innermost open frame. -/
def deliver (value : Json) (open_ : List Frame) (rest : List Token) :
    Option (Json × List Token) :=
  match open_ with
  | [] => some (value, rest)
  | .list done :: outer =>
    readValue .separator (.list (value :: done) :: outer) rest
  | .record done name :: outer =>
    readValue .separator (.record ((name, value) :: done) none :: outer) rest

/-- A token that starts a value. -/
inductive Token.Starts : Token → Prop
  | atom (value : Json) : Starts (.atom value)
  | openList : Starts .openList
  | openRecord : Starts .openRecord

/-- The first item of a list is read like any value. -/
theorem readValue_item {t : Token} (starts : t.Starts) (outer : List Frame)
    (open_ : List Frame) (rest : List Token) :
    readValue (.item outer) open_ (t :: rest) =
      readValue .value open_ (t :: rest) := by
  cases starts <;> rfl

theorem starts_tokensOf (j : Json) :
    ∃ t rest, tokensOf j = t :: rest ∧ t.Starts := by
  cases j with
  | list items => exact ⟨_, _, by rw [tokensOf], .openList⟩
  | record fields => exact ⟨_, _, by rw [tokensOf], .openRecord⟩
  | _ => exact ⟨_, _, by rw [tokensOf], .atom _⟩

theorem starts_itemTokens (item : Json) (items : List Json) :
    ∃ t rest, itemTokens (item :: items) = t :: rest ∧ t.Starts := by
  obtain ⟨t, rest, first, starts⟩ := starts_tokensOf item
  cases items with
  | nil => exact ⟨t, rest, by rw [itemTokens, first], starts⟩
  | cons next items =>
    refine ⟨t, rest ++ .comma :: itemTokens (next :: items), ?_, starts⟩
    rw [itemTokens, first, List.cons_append]
    nofun

/-- **Tokens.** From its tokens a value is built, and so are the items of a
list and the fields of a record up to their end. -/
theorem readValue_tokensOf :
    (∀ j, ∀ open_ rest,
      readValue .value open_ (tokensOf j ++ rest) = deliver j open_ rest) ∧
    (∀ fields, fields ≠ [] → ∀ done first outer rest,
      readValue (.name done first) outer
          (fieldTokens fields ++ .closeRecord :: rest) =
        deliver (.record (done.reverse ++ fields)) outer rest) ∧
    (∀ items, items ≠ [] → ∀ done outer rest,
      readValue .value (.list done :: outer)
          (itemTokens items ++ .closeList :: rest) =
        deliver (.list (done.reverse ++ items)) outer rest) := by
  -- over the document; what is built around it varies
  apply tokensOf.mutual_induct
  case case1 => intro open_ rest; cases open_ <;> rfl
  case case2 => intro value open_ rest; rfl
  case case3 => intro n open_ rest; rfl
  case case4 => intro content open_ rest; rfl
  case case5 =>
    intro items built open_ rest
    rw [tokensOf, List.cons_append, List.append_assoc]
    show readValue (.item open_) (.list [] :: open_)
      (itemTokens items ++ .closeList :: rest) = _
    -- a list can be closed where its first item may start, but not later
    cases items with
    | nil =>
      rw [itemTokens]
      cases open_ <;> rfl
    | cons item items =>
      obtain ⟨t, more, first, starts⟩ := starts_itemTokens item items
      have read := built nofun [] open_ rest
      rw [first] at read ⊢
      exact (readValue_item starts _ _ _).trans read
  case case6 =>
    intro fields built open_ rest
    rw [tokensOf, List.cons_append, List.append_assoc]
    show readValue (.name [] true) open_
      (fieldTokens fields ++ .closeRecord :: rest) = _
    cases fields with
    | nil =>
      rw [fieldTokens]
      cases open_ <;> rfl
    | cons field fields => exact built nofun [] true open_ rest
  case case7 => exact fun filled => absurd rfl filled
  case case8 =>
    intro item read _ done outer rest
    rw [itemTokens, read, deliver]
    show deliver (.list (item :: done).reverse) outer rest = _
    rw [List.reverse_cons]
  case case9 =>
    intro item items filled read built _ done outer rest
    rw [itemTokens, List.append_assoc, read, deliver]
    · show readValue .value (.list (item :: done) :: outer)
        (itemTokens items ++ .closeList :: rest) = _
      rw [built filled, List.reverse_cons, List.append_assoc]
      rfl
    · exact filled
  case case10 => exact fun filled => absurd rfl filled
  case case11 =>
    intro name value read _ done first outer rest
    rw [fieldTokens]
    show readValue .value (.record done name :: outer)
      (tokensOf value ++ .closeRecord :: rest) = _
    rw [read, deliver]
    show deliver (.record ((name, value) :: done).reverse) outer rest = _
    rw [List.reverse_cons]
  case case12 =>
    intro name value fields filled read built _ done first outer rest
    rw [fieldTokens]
    · show readValue .value (.record done name :: outer)
        (tokensOf value ++ .comma :: fieldTokens fields ++ .closeRecord :: rest) = _
      rw [List.append_assoc, read, deliver]
      show readValue (.name ((name, value) :: done) false) outer
        (fieldTokens fields ++ .closeRecord :: rest) = _
      rw [built filled, List.reverse_cons, List.append_assoc]
      rfl
    · exact filled

/-! ## From lines to tokens -/

mutual

/-- Numbers are written as documents want them, and texts are whole. -/
def Readable : Json → Prop
  | .null | .bool _ => True
  | .number n => Standard n
  | .text content => content.isSome
  | .list items => ReadableItems items
  | .record fields => ReadableFields fields

/-- Every item is readable. -/
def ReadableItems : List Json → Prop
  | [] => True
  | item :: rest => Readable item ∧ ReadableItems rest

/-- Every name and every value is readable. -/
def ReadableFields : List (Option String × Json) → Prop
  | [] => True
  | (name, value) :: rest =>
    name.isSome ∧ Readable value ∧ ReadableFields rest

end

theorem readableItems_iff {items : List Json} :
    ReadableItems items ↔ ∀ item ∈ items, item.Readable := by
  induction items with
  | nil => simp [ReadableItems]
  | cons item rest ih => simp [ReadableItems, ih]

theorem readableFields_iff {fields : List (Option String × Json)} :
    ReadableFields fields ↔
      ∀ field ∈ fields, field.1.isSome ∧ field.2.Readable := by
  induction fields with
  | nil => simp [ReadableFields]
  | cons field rest ih => simp [ReadableFields, ih, and_assoc]

theorem lexes_quotedText {content : Option String} (whole : content.isSome) :
    Lexes (quotedText content).toList [.atom (.text content)] Anything := by
  obtain ⟨s, rfl⟩ := Option.isSome_iff_exists.mp whole
  exact lexes_quoted s

/-- The start of a line. -/
theorem lexes_indentation (level : Nat) :
    Lexes (indentation level).toList [] Anything := by
  rw [indentation, String.toList_ofList]
  exact .blanks _

theorem boundary_of_cons {c : Char} {rest : List Char}
    (mark : c.isDigit = false ∧ c ≠ '.' ∧ c ≠ 'e' ∧ c ≠ 'E') :
    Boundary (c :: rest) := by
  intro first same
  cases same
  exact mark

theorem lexes_newline : Lexes "\n".toList [] Anything := .blank rfl

/-- What is read whatever follows. -/
theorem Lexes.loose {chars : List Char} {all : List Token}
    (lexes : Lexes chars all Anything) : Lexes chars all Boundary :=
  lexes.mono fun _ _ => trivial

/-- A mark is a token whatever follows. -/
theorem lexes_mark {c : Char} {t : Token} (solid : isSpace c = false)
    (read : ∀ rest, readToken c rest = some (t, rest)) :
    Lexes [c] [t] Anything :=
  Lexes.token solid fun rest _ => read rest

/-- A mark and the space behind it. -/
theorem lexes_mark_blank {c b : Char} {t : Token} (solid : isSpace c = false)
    (read : ∀ rest, readToken c rest = some (t, rest))
    (space : isSpace b = true) : Lexes [c, b] [t] Anything :=
  (lexes_mark solid read).then_ (.blank space)

theorem lexes_comma : Lexes ",\n".toList [.comma] Anything :=
  lexes_mark_blank (c := ',') (b := '\n') rfl (fun _ => rfl) rfl

theorem lexes_openList : Lexes "[\n".toList [.openList] Anything :=
  lexes_mark_blank (c := '[') (b := '\n') rfl (fun _ => rfl) rfl

theorem lexes_closeList : Lexes "]".toList [.closeList] Anything :=
  lexes_mark (c := ']') rfl fun _ => rfl

theorem lexes_openRecord : Lexes "\x7b\n".toList [.openRecord] Anything :=
  lexes_mark_blank (c := '\x7b') (b := '\n') rfl (fun _ => rfl) rfl

theorem lexes_closeRecord : Lexes "\x7d".toList [.closeRecord] Anything :=
  lexes_mark (c := '\x7d') rfl fun _ => rfl

theorem lexes_colon : Lexes ": ".toList [.colon] Anything :=
  lexes_mark_blank (c := ':') (b := ' ') rfl (fun _ => rfl) rfl

/-- What stands on lines of its own between marks. -/
theorem lexes_block {start stop inner : String} {t u : Token} {all : List Token}
    (opened : Lexes start.toList [t] Anything)
    (inside : Lexes inner.toList all Boundary)
    (closed : Lexes stop.toList [u] Anything) (level : Nat) :
    Lexes (start ++ inner ++ "\n" ++ indentation level ++ stop).toList
      (t :: (all ++ [u])) Anything := by
  have line : Lexes (start ++ inner ++ "\n").toList (t :: all) Anything := by
    rw [String.toList_append, String.toList_append]
    have ended := (opened.then_ inside).append lexes_newline fun rest _ =>
      boundary_of_cons (c := '\n') (by decide)
    rwa [List.append_nil] at ended
  rw [String.toList_append, String.toList_append]
  have whole := (line.then_ (lexes_indentation level)).then_ closed
  rwa [List.append_nil, List.cons_append] at whole

/-- A line that ends with a comma, and further lines. -/
theorem lexes_lines {line more : String} {all others : List Token}
    (first : Lexes line.toList all Boundary)
    (rest : Lexes more.toList others Boundary) :
    Lexes (line ++ ",\n" ++ more).toList (all ++ .comma :: others) Boundary := by
  rw [String.toList_append, String.toList_append]
  have ended := first.append lexes_comma fun rest _ =>
    boundary_of_cons (c := ',') (by decide)
  have whole := ended.then_ rest
  rwa [List.append_assoc all] at whole

/-- The line of a field. -/
theorem lexes_field {name : Option String} (whole : name.isSome) (level : Nat)
    {text : String} {all : List Token}
    (value : Lexes text.toList all Boundary) :
    Lexes (indentation level ++ quotedText name ++ ": " ++ text).toList
      (.atom (.text name) :: .colon :: all) Boundary := by
  rw [String.toList_append, String.toList_append, String.toList_append]
  exact (((lexes_indentation level).then_ (lexes_quotedText whole)).then_
    lexes_colon).then_ value

/-- The line of an item. -/
theorem lexes_item (level : Nat) {text : String} {all : List Token}
    (value : Lexes text.toList all Boundary) :
    Lexes (indentation level ++ text).toList all Boundary := by
  rw [String.toList_append]
  exact (lexes_indentation level).then_ value

/-- **Lines.** The lines of a document are its tokens. -/
theorem lexes_prettyAt :
    (∀ level j, Readable j →
      Lexes (j.prettyAt level).toList (tokensOf j) Boundary) ∧
    (∀ level fields, ReadableFields fields →
      Lexes (prettyFields level fields).toList (fieldTokens fields) Boundary) ∧
    (∀ level items, ReadableItems items →
      Lexes (prettyItems level items).toList (itemTokens items) Boundary) := by
  -- over the lines; only numbers depend on what comes behind them
  apply prettyAt.mutual_induct
  case case1 =>
    intro level _
    rw [prettyAt, tokensOf]
    exact .loose (Lexes.token (c := 'n') rfl fun _ _ => rfl)
  case case2 =>
    intro level _
    rw [prettyAt, tokensOf]
    exact .loose (Lexes.token (c := 't') rfl fun _ _ => rfl)
  case case3 =>
    intro level value no _
    obtain rfl : value = false := by simpa using no
    rw [prettyAt, tokensOf]
    exact .loose (Lexes.token (c := 'f') rfl fun _ _ => rfl)
  case case4 =>
    intro level n standard
    rw [prettyAt, tokensOf]
    exact lexes_number standard
  case case5 =>
    intro level content whole
    rw [prettyAt, tokensOf]
    exact .loose (lexes_quotedText whole)
  case case6 =>
    intro level _
    rw [prettyAt, tokensOf, itemTokens]
    exact .loose ((lexes_mark (c := '[') rfl fun _ => rfl).then_
      lexes_closeList)
  case case7 =>
    intro level item items lines readable
    rw [prettyAt, tokensOf]
    exact .loose (lexes_block lexes_openList (lines readable) lexes_closeList level)
  case case8 =>
    intro level _
    rw [prettyAt, tokensOf, fieldTokens]
    exact .loose ((lexes_mark (c := '\x7b') rfl fun _ => rfl).then_
      lexes_closeRecord)
  case case9 =>
    intro level field fields lines readable
    rw [prettyAt, tokensOf]
    exact .loose (lexes_block lexes_openRecord (lines readable) lexes_closeRecord
      level)
  case case10 =>
    intro level _
    rw [prettyItems, itemTokens]
    exact .nil
  case case11 =>
    intro level item line readable
    rw [prettyItems, itemTokens]
    exact lexes_item level (line readable.1)
  case case12 =>
    intro level item items filled line lines readable
    rw [prettyItems, itemTokens]
    · exact lexes_lines (lexes_item level (line readable.1)) (lines readable.2)
    all_goals exact filled
  case case13 =>
    intro level _
    rw [prettyFields, fieldTokens]
    exact .nil
  case case14 =>
    intro level name value line readable
    rw [prettyFields, fieldTokens]
    exact lexes_field readable.1 level (line readable.2.1)
  case case15 =>
    intro level name value fields filled line lines readable
    rw [prettyFields, fieldTokens]
    · exact lexes_lines (lexes_field readable.1 level (line readable.2.1))
        (lines readable.2.2)
    all_goals exact filled

/-! ## Without blanks -/

/-- What stands between marks. -/
theorem lexes_between {start stop inner : String} {c : Char} {t u : Token}
    {all : List Token} (opened : Lexes start.toList [t] Anything)
    (inside : Lexes inner.toList all Boundary)
    (closed : Lexes stop.toList [u] Anything) (last : stop.toList = [c])
    (mark : c.isDigit = false ∧ c ≠ '.' ∧ c ≠ 'e' ∧ c ≠ 'E') :
    Lexes (start ++ inner ++ stop).toList (t :: (all ++ [u])) Anything := by
  rw [String.toList_append, String.toList_append]
  refine (opened.then_ inside).append closed fun rest _ => ?_
  rw [last]
  exact boundary_of_cons mark

/-- A part that ends with a comma, and further parts. -/
theorem lexes_parts {part more : String} {all others : List Token}
    (first : Lexes part.toList all Boundary)
    (rest : Lexes more.toList others Boundary) :
    Lexes (part ++ "," ++ more).toList (all ++ .comma :: others) Boundary := by
  have comma : Lexes ",".toList [.comma] Anything :=
    lexes_mark (c := ',') rfl fun _ => rfl
  rw [String.toList_append, String.toList_append]
  have ended := first.append comma fun rest _ =>
    boundary_of_cons (c := ',') (by decide)
  have whole := ended.then_ rest
  rwa [List.append_assoc all] at whole

/-- A field without blanks. -/
theorem lexes_member {name : Option String} (whole : name.isSome)
    {text : String} {all : List Token}
    (value : Lexes text.toList all Boundary) :
    Lexes (quotedText name ++ ":" ++ text).toList
      (.atom (.text name) :: .colon :: all) Boundary := by
  have colon : Lexes ":".toList [.colon] Anything :=
    lexes_mark (c := ':') rfl fun _ => rfl
  rw [String.toList_append, String.toList_append]
  exact ((lexes_quotedText whole).then_ colon).then_ value

/-- The text of a document without blanks is its tokens. -/
theorem lexes_compact :
    (∀ j, Readable j → Lexes j.compact.toList (tokensOf j) Boundary) ∧
    (∀ fields, ReadableFields fields →
      Lexes (compactFields fields).toList (fieldTokens fields) Boundary) ∧
    (∀ items, ReadableItems items →
      Lexes (compactItems items).toList (itemTokens items) Boundary) := by
  apply compact.mutual_induct
  case case1 =>
    intro _
    rw [compact, tokensOf]
    exact .loose (Lexes.token (c := 'n') rfl fun _ _ => rfl)
  case case2 =>
    intro _
    rw [compact, tokensOf]
    exact .loose (Lexes.token (c := 't') rfl fun _ _ => rfl)
  case case3 =>
    intro value no _
    obtain rfl : value = false := by simpa using no
    rw [compact, tokensOf]
    exact .loose (Lexes.token (c := 'f') rfl fun _ _ => rfl)
  case case4 =>
    intro n standard
    rw [compact, tokensOf]
    exact lexes_number standard
  case case5 =>
    intro content whole
    rw [compact, tokensOf]
    exact .loose (lexes_quotedText whole)
  case case6 =>
    intro items inside readable
    rw [compact, tokensOf]
    exact .loose (lexes_between (lexes_mark (c := '[') rfl fun _ => rfl)
      (inside readable) lexes_closeList (c := ']') rfl (by decide))
  case case7 =>
    intro fields inside readable
    rw [compact, tokensOf]
    exact .loose (lexes_between (lexes_mark (c := '\x7b') rfl fun _ => rfl)
      (inside readable) lexes_closeRecord (c := '\x7d') rfl (by decide))
  case case8 =>
    intro _
    rw [compactItems, itemTokens]
    exact .nil
  case case9 =>
    intro item text readable
    rw [compactItems, itemTokens]
    exact text readable.1
  case case10 =>
    intro item items filled text more readable
    rw [compactItems, itemTokens]
    · exact lexes_parts (text readable.1) (more readable.2)
    all_goals exact filled
  case case11 =>
    intro _
    rw [compactFields, fieldTokens]
    exact .nil
  case case12 =>
    intro name value text readable
    rw [compactFields, fieldTokens]
    exact lexes_member readable.1 (text readable.2.1)
  case case13 =>
    intro name value fields filled text more readable
    rw [compactFields, fieldTokens]
    · exact lexes_parts (lexes_member readable.1 (text readable.2.1))
        (more readable.2.2)
    all_goals exact filled

/-! ## Reading back -/

/-- A text whose tokens are those of a document. -/
theorem read_of_lexes {text : String} {j : Json}
    (lexes : Lexes text.toList (tokensOf j) Boundary) :
    read text = some (j, true) := by
  obtain ⟨fuel, -, lexed⟩ := lexes [] text.length [] boundary_nil (by
    rw [List.append_nil, String.length_toList])
  have all : tokens text = (tokensOf j, true) := by
    rw [List.append_nil, List.append_nil] at lexed
    refine lexed.trans ?_
    cases fuel <;> simp [readTokens]
  have built := readValue_tokensOf.1 j [] []
  rw [List.append_nil] at built
  rw [read, all]
  simp only [built, deliver]
  rfl

/-- **Documents read back.** A readable document that is written with an item
per line reads as itself, with nothing left over. -/
theorem read_pretty {j : Json} (readable : j.Readable) :
    read j.pretty = some (j, true) :=
  read_of_lexes (lexes_prettyAt.1 0 j readable)

/-- So does one that is written without blanks. -/
theorem read_compact {j : Json} (readable : j.Readable) :
    read j.compact = some (j, true) :=
  read_of_lexes (lexes_compact.1 j readable)

end FieldMesh.Json
