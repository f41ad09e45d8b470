import Mathlib.Data.List.Chain
import FieldMesh.Formula.Parser

/-!
# The grammar of expressions

    expression = term (("+" | "-") term)*
    term       = unary (("*" | "/" | "%") unary)*
    unary      = ("+" | "-") unary | primary
    primary    = number | name | name "(" expression ("," expression)* ")"
               | "(" expression ")"

Of the operations of a repetition the last one is outermost, so that they
group to the left.

* `Derives`: which tokens a phrase of the grammar can be written with, and
  what the phrase stands for;
* `Separated`: no operand stands right behind another, which holds of
  everything that the grammar derives (`Derives.separated`);
* `words`: tokens as the parser takes them, where a name and the parenthesis
  behind it are one word;
* `Parser.fault_run`, `Parser.run_ok_iff`: a text is read word by word.
-/

namespace FieldMesh.Formula

/-! ## Derivations -/

/-- How a sign in front of an operand is written. -/
def UnaryOp.symbol : UnaryOp → Symbol
  | .plus => .plus
  | .minus => .minus

/-- How an operation is written. -/
def BinaryOp.symbol : BinaryOp → Symbol
  | .add => .plus
  | .sub => .minus
  | .mul => .star
  | .div => .slash
  | .mod => .percent

/-- Whether an operation joins the terms of an expression; the others join
the factors of a term. -/
def BinaryOp.joinsTerms : BinaryOp → Bool
  | .add | .sub => true
  | .mul | .div | .mod => false

/-- A part of a formula as the grammar names it, with what it stands for. -/
inductive Phrase where
  | expression (e : Expr)
  | term (e : Expr)
  | unary (e : Expr)
  | primary (e : Expr)
  /-- The arguments of a call, with a comma between two of them. -/
  | arguments (es : List Expr)

/-- `Derives phrase tokens`: the tokens can be read as that phrase. -/
inductive Derives : Phrase → List Token → Prop
  | number (value : Float32) :
    Derives (.primary (.constant value)) [.number value]
  | name (name : String) :
    Derives (.primary (.reference name)) [.identifier name]
  | call {es tokens} (function : String) :
    Derives (.arguments es) tokens →
    Derives (.primary (.call function es))
      (.identifier function :: .left :: (tokens ++ [.right]))
  /-- Parentheses leave no trace. -/
  | group {e tokens} :
    Derives (.expression e) tokens →
    Derives (.primary e) (.left :: (tokens ++ [.right]))
  | primary {e tokens} :
    Derives (.primary e) tokens → Derives (.unary e) tokens
  | sign {e tokens} (op : UnaryOp) :
    Derives (.unary e) tokens →
    Derives (.unary (.unary op e)) (.op op.symbol :: tokens)
  | unary {e tokens} :
    Derives (.unary e) tokens → Derives (.term e) tokens
  | factor {a b tokens more} {op : BinaryOp} :
    op.joinsTerms = false →
    Derives (.term a) tokens → Derives (.unary b) more →
    Derives (.term (.binary op a b)) (tokens ++ .op op.symbol :: more)
  | term {e tokens} :
    Derives (.term e) tokens → Derives (.expression e) tokens
  | summand {a b tokens more} {op : BinaryOp} :
    op.joinsTerms = true →
    Derives (.expression a) tokens → Derives (.term b) more →
    Derives (.expression (.binary op a b)) (tokens ++ .op op.symbol :: more)
  | argument {e tokens} :
    Derives (.expression e) tokens → Derives (.arguments [e]) tokens
  | further {es e tokens more} :
    Derives (.arguments es) tokens → Derives (.expression e) more →
    Derives (.arguments (es ++ [e])) (tokens ++ .comma :: more)

/-- The tokens of a text, up to its end or to a malformed number. -/
def tokens (text : String) : List Token := (lex text).lexemes.map (·.token)

/-- A text that consists of tokens up to its end. -/
def Tokenized (text : String) : Prop := ∃ length, (lex text).ending = .ok length

/-! ## Operands side by side -/

/-- Whether an operand can end with a token of this kind. -/
def TokenKind.endsOperand : TokenKind → Bool
  | .number | .identifier | .right => true
  | .finish | .op | .left | .comma => false

/-- Whether an operand can begin with a token. -/
def Token.beginsOperand : Token → Bool
  | .number _ | .identifier _ | .left => true
  | .op _ | .right | .comma => false

/-- Two tokens of which the first ends an operand and the second begins
another. A name in front of an opening parenthesis is that of a call. -/
def Abut (first second : Token) : Prop :=
  first.kind.endsOperand = true ∧ second.beginsOperand = true ∧
    ¬ (first.kind = .identifier ∧ second = .left)

/-- No operand stands right behind another. -/
def Separated (tokens : List Token) : Prop :=
  tokens.IsChain fun first second => ¬ Abut first second

theorem separated_append {front back : List Token} (first : Separated front)
    (second : Separated back)
    (apart : ∀ a ∈ front.getLast?, ∀ b ∈ back.head?, ¬ Abut a b) :
    Separated (front ++ back) :=
  List.isChain_append.mpr ⟨first, second, apart⟩

/-- In front of what begins no operand there can be anything. -/
theorem separated_append_cons {front back : List Token} {t : Token}
    (first : Separated front) (begins : t.beginsOperand = false)
    (second : Separated (t :: back)) : Separated (front ++ t :: back) := by
  refine separated_append first second fun a _ b member => ?_
  cases Option.mem_def.mp member
  rintro ⟨-, starts, -⟩
  rw [begins] at starts
  cases starts

/-- Behind what ends no operand there can be anything. -/
theorem separated_cons {back : List Token} {t : Token}
    (ends : t.kind.endsOperand = false) (second : Separated back) :
    Separated (t :: back) := by
  refine List.isChain_cons.mpr ⟨fun b _ abut => ?_, second⟩
  have ended := abut.1
  rw [ends] at ended
  cases ended

theorem separated_singleton (t : Token) : Separated [t] :=
  List.isChain_singleton t

/-- What the grammar derives has no operand right behind another. -/
theorem Derives.separated {phrase : Phrase} {tokens : List Token}
    (derives : Derives phrase tokens) : Separated tokens := by
  induction derives with
  | number | name => exact separated_singleton _
  | call function _ ih =>
    have inside := separated_append_cons ih rfl (separated_singleton .right)
    refine List.isChain_cons_cons.mpr ⟨?_, separated_cons rfl inside⟩
    rintro ⟨-, -, apart⟩
    exact apart ⟨rfl, rfl⟩
  | group _ ih =>
    exact separated_cons rfl
      (separated_append_cons ih rfl (separated_singleton .right))
  | primary _ ih | unary _ ih | term _ ih | argument _ ih => exact ih
  | sign op _ ih => exact separated_cons rfl ih
  | factor _ _ _ ih ihMore | summand _ _ _ ih ihMore | further _ _ ih ihMore =>
    exact separated_append_cons ih rfl (separated_cons rfl ihMore)

/-! ## Words -/

/-- What the parser takes at a time: a token, or a name with the parenthesis
that makes it the name of a call. -/
inductive Word where
  | opening (function : String)
  | token (t : Token)

/-- Tokens as words. -/
def words : List Token → List Word
  | .identifier function :: .left :: rest => .opening function :: words rest
  | t :: rest => .token t :: words rest
  | [] => []

/-- The tokens of a word. -/
def Word.tokens : Word → List Token
  | .opening function => [.identifier function, .left]
  | .token t => [t]

theorem words_cons {t : Token} {rest : List Token}
    (apart : t.kind = .identifier → rest.head? ≠ some .left) :
    words (t :: rest) = .token t :: words rest := by
  rw [words]
  rintro function rest rfl rfl
  exact apart rfl rfl

theorem words_left (rest : List Token) :
    words (.left :: rest) = .token .left :: words rest :=
  words_cons fun isName => by cases isName

theorem words_op (symbol : Symbol) (rest : List Token) :
    words (.op symbol :: rest) = .token (.op symbol) :: words rest :=
  words_cons fun isName => by cases isName

/-- Words end where no opening parenthesis follows. -/
theorem words_append {front back : List Token}
    (apart : back.head? ≠ some .left) :
    words (front ++ back) = words front ++ words back := by
  fun_induction words front with
  | case1 function rest ih => rw [List.cons_append, List.cons_append, words, ih]; rfl
  | case2 t rest other ih =>
    rw [List.cons_append, words_cons, ih]
    · rfl
    · rintro isName
      cases t with
      | identifier function =>
        cases rest with
        | nil => exact apart
        | cons next rest =>
          rintro ⟨⟩
          exact other function rest rfl rfl
      | number | op | left | right | comma => cases isName
  | case3 => rfl

/-- What begins no operand is a word of its own and ends the one before. -/
theorem words_append_cons {front back : List Token} {t : Token}
    (begins : t.beginsOperand = false) :
    words (front ++ t :: back) = words front ++ .token t :: words back := by
  rw [words_append, words_cons]
  · intro isName
    cases t with
    | number | identifier | left => cases begins
    | op | right | comma => cases isName
  · rintro ⟨⟩
    cases begins

/-- Words are made of the tokens, in their order. -/
theorem flatMap_words (tokens : List Token) :
    (words tokens).flatMap Word.tokens = tokens := by
  fun_induction words tokens with
  | case1 function rest ih => rw [List.flatMap_cons, ih]; rfl
  | case2 t rest _ ih => rw [List.flatMap_cons, ih]; rfl
  | case3 => rfl

/-- A computation that goes on with the result of another succeeds if both
do. -/
theorem bind_ok_iff {ε α β : Type} {x : Except ε α} {f : α → Except ε β} {b : β} :
    x >>= f = .ok b ↔ ∃ a, x = .ok a ∧ f a = .ok b := by
  cases x with
  | error e => exact ⟨nofun, nofun⟩
  | ok a => exact ⟨fun done => ⟨a, rfl, done⟩, fun | ⟨_, rfl, done⟩ => done⟩

namespace Parser

/-- Reads a word. -/
def read (parser : Parser) : Word → Except ParseFault Parser
  | .opening function => .ok (parser.descend .left (.call function []))
  | .token t => parser.step t

/-- Reads words one after the other. -/
def readAll (parser : Parser) : List Word → Except ParseFault Parser
  | [] => .ok parser
  | w :: rest => do (← parser.read w).readAll rest

theorem readAll_cons {parser next : Parser} {w : Word}
    (read : parser.read w = .ok next) (rest : List Word) :
    parser.readAll (w :: rest) = next.readAll rest := by
  rw [readAll, read]
  rfl

theorem readAll_append {parser next : Parser} {front : List Word}
    (read : parser.readAll front = .ok next) (back : List Word) :
    parser.readAll (front ++ back) = next.readAll back := by
  induction front generalizing parser with
  | nil =>
    cases read
    rfl
  | cons w rest ih =>
    obtain ⟨mid, first, read⟩ := bind_ok_iff.mp read
    rw [List.cons_append, readAll_cons first]
    exact ih read

/-- A text with a malformed number is not read. -/
theorem run_error {e : ParseError} (parser : Parser) (lexemes : List Lexeme)
    (result : Expr) : parser.run (.error e) lexemes ≠ .ok result := by
  intro done
  fun_induction run (.error e) parser lexemes with
  | case1 => cases done
  | case2 => contradiction
  | case3 _ _ _ _ _ _ _ ih => exact ih done
  | case4 => cases done
  | case5 _ _ _ _ _ _ ih => exact ih done

/-- Up to the place of a fault, a text is read word by word, up to its end. -/
theorem fault_run {length : Nat} {lexemes : List Lexeme} {parser : Parser} :
    (parser.run (.ok length) lexemes).mapError (·.fault) =
      parser.readAll (words (lexemes.map (·.token))) >>= finish := by
  have unplaced {α : Type} (offset : Nat) (result : Except ParseFault α) :
      (located offset result).mapError (·.fault) = result := by
    cases result <;> rfl
  -- a lexeme that is not the name of a call is a word of its own
  have single : ∀ {lexeme : Lexeme} {rest : List Lexeme},
      (∀ function start stop start' stop' rest',
        lexeme = ⟨.identifier function, start, stop⟩ →
        rest = ⟨.left, start', stop'⟩ :: rest' → False) →
      words ((lexeme :: rest).map (·.token)) =
        .token lexeme.token :: words (rest.map (·.token)) := by
    rintro ⟨t, start, stop⟩ rest other
    refine words_cons fun isName isCall => ?_
    cases t with
    | identifier function =>
      obtain ⟨⟨_, start', stop'⟩, first, rfl⟩ :=
        Option.map_eq_some_iff.mp (List.head?_map.symm.trans isCall)
      obtain ⟨rest', rfl⟩ := List.head?_eq_some_iff.mp first
      exact other function start stop start' stop' rest' rfl rfl
    | number | op | left | right | comma => cases isName
  fun_induction run (.ok length) parser lexemes with
  | case1 _ e failed => cases failed
  | case2 parser length' same => exact unplaced length' parser.finish
  | case3 parser function _ _ _ _ rest ih => exact ih
  | case4 parser lexeme rest other e failed =>
    rw [single other, readAll, read, ← unplaced lexeme.start (parser.step _), failed]
    rfl
  | case5 parser lexeme rest other next stepped ih =>
    have done : parser.step lexeme.token = .ok next := by
      rw [← unplaced lexeme.start (parser.step lexeme.token), stepped]
      rfl
    have taken : parser.read (.token lexeme.token) = .ok next := done
    rw [single other, readAll_cons taken, ih]

/-- A text is read word by word, up to its end. -/
theorem run_ok_iff {length : Nat} {lexemes : List Lexeme} {parser : Parser}
    {result : Expr} :
    parser.run (.ok length) lexemes = .ok result ↔
      ∃ last, parser.readAll (words (lexemes.map (·.token))) = .ok last ∧
        last.finish = .ok result := by
  rw [← bind_ok_iff, ← fault_run]
  cases parser.run (.ok length) lexemes with
  | error e => exact ⟨nofun, nofun⟩
  | ok e => exact ⟨fun done => by rw [done]; rfl, fun done => by cases done; rfl⟩

end Parser

end FieldMesh.Formula
