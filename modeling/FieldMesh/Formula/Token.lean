import FieldMesh.Decimal.Text

/-!
# Tokens

The words of formula text: numbers, names, the five operator signs,
parentheses and commas.
-/

namespace FieldMesh.Formula

/-- An operator sign. -/
inductive Symbol where
  | plus
  | minus
  | star
  | slash
  | percent
  deriving DecidableEq, Repr

/-- The character of a sign. -/
def Symbol.char : Symbol → Char
  | .plus => '+'
  | .minus => '-'
  | .star => '*'
  | .slash => '/'
  | .percent => '%'

/-- The sign that a character is. -/
def Symbol.ofChar? (c : Char) : Option Symbol :=
  [plus, minus, star, slash, percent].find? (·.char == c)

/-- The text of a sign. -/
def Symbol.text (symbol : Symbol) : String := String.singleton symbol.char

/-- A token. -/
inductive Token where
  | number (value : Float32)
  /-- A name, in lower case. -/
  | identifier (name : String)
  | op (symbol : Symbol)
  | left
  | right
  | comma
  deriving DecidableEq

/-- What a token is, leaving out what it says. The end of the text has a kind
of its own; it also stands for what precedes the first token. -/
inductive TokenKind where
  | finish
  | number
  | identifier
  | op
  | left
  | right
  | comma
  deriving DecidableEq, Repr

/-- The kind of a token. -/
def Token.kind : Token → TokenKind
  | .number _ => .number
  | .identifier _ => .identifier
  | .op _ => .op
  | .left => .left
  | .right => .right
  | .comma => .comma

/-- The text of a token. -/
def Token.text : Token → String
  | .number value => Decimal.formulaText value
  | .identifier name => name
  | .op symbol => symbol.text
  | .left => "("
  | .right => ")"
  | .comma => ","

end FieldMesh.Formula
