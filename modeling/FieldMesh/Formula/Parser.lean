import FieldMesh.Formula.Expr
import FieldMesh.Formula.Lexeme

/-!
# Parsing

Reads an expression from lexemes, one at a time, with two stacks: pending
operators, and operands that wait for them. Groups in parentheses and
arguments of calls open a level on the same two stacks. A level remembers how
high the stacks were when it was opened, and nothing below these marks is
touched until it is closed again.

* `reduceWhile`: pending operators are applied, the last one first;
* `Parser.step`: what one lexeme does;
* `Parser.run`, `parse`: a whole text.

Signs bind tighter than every binary operation, `*`, `/` and `%` tighter than
`+` and `-`, and binary operations group to the left.
-/

namespace FieldMesh.Formula

/-! ## Pending operators -/

/-- An operator that waits for its last operand. -/
inductive Pending where
  | unary (op : UnaryOp)
  | binary (op : BinaryOp)
  deriving DecidableEq, Repr

/-- How tight an operator binds. -/
def Pending.precedence : Pending → Nat
  | .unary _ => 2000
  | .binary .add | .binary .sub => 2
  | .binary .mul | .binary .div | .binary .mod => 3

/-- The text of an operator. -/
def Pending.text : Pending → String
  | .unary op => op.text
  | .binary op => op.text

/-- Whether a pending operator is applied before `next` is put on top of it.
Binary operations group to the left, signs to the right. -/
def Pending.yieldsTo (next top : Pending) : Bool :=
  next.precedence < top.precedence ||
    match next with
    | .unary _ => false
    | .binary _ => top.precedence == next.precedence

/-- The operator that a sign stands for. It has one operand where no operand
can come before it. -/
def Pending.ofSymbol (previous : TokenKind) (symbol : Symbol) :
    Except ParseFault Pending :=
  match previous with
  | .number | .identifier | .right =>
    .ok <| .binary <| match symbol with
      | .plus => .add
      | .minus => .sub
      | .star => .mul
      | .slash => .div
      | .percent => .mod
  | .finish | .op | .left | .comma =>
    match symbol with
    | .plus => .ok (.unary .plus)
    | .minus => .ok (.unary .minus)
    | .star | .slash | .percent => .error (.missingOperand symbol.text)

/-- Takes the operand on top, if it lies above the mark. -/
def popOperand (mark : Nat) (op : Pending) :
    List Expr → Except ParseFault (Expr × List Expr)
  | [] => .error (.missingOperand op.text)
  | operand :: rest =>
    if rest.length < mark then .error (.missingOperand op.text)
    else .ok (operand, rest)

/-- Applies an operator to the operands on top. -/
def reduce (mark : Nat) (op : Pending) (operands : List Expr) :
    Except ParseFault (List Expr) :=
  match op with
  | .unary unary => do
    let (operand, rest) ← popOperand mark op operands
    return .unary unary operand :: rest
  | .binary binary => do
    let (right, rest) ← popOperand mark op operands
    let (left, rest) ← popOperand mark op rest
    return .binary binary left right :: rest

/-- The marks of a level: how many operators and operands lie below it. -/
structure Marks where
  operators : Nat
  operands : Nat
  deriving DecidableEq, Repr

/-- Applies operators above the mark as long as they `yield`. -/
def reduceWhile (yield : Pending → Bool) (marks : Marks) :
    List Pending → List Expr → Except ParseFault (List Pending × List Expr)
  | [], operands => .ok ([], operands)
  | op :: below, operands =>
    if marks.operators ≤ below.length && yield op then do
      let operands ← reduce marks.operands op operands
      reduceWhile yield marks below operands
    else .ok (op :: below, operands)

/-! ## Levels -/

/-- What a parenthesis opened. -/
inductive Opening where
  | group
  /-- The arguments of a call, of which some are complete. -/
  | call (function : String) (arguments : List Expr)

/-- An open parenthesis and the marks of its level. -/
structure Level where
  opening : Opening
  marks : Marks

/-- The state of reading. -/
structure Parser where
  /-- The kind of the token before. -/
  previous : TokenKind
  /-- Pending operators, the last one first. -/
  operators : List Pending
  /-- Operands, the last one first. -/
  operands : List Expr
  /-- Open parentheses, the innermost first. -/
  levels : List Level

namespace Parser

/-- Before the first token. -/
def start : Parser := ⟨.finish, [], [], []⟩

/-- The marks of the innermost level. -/
def marks (parser : Parser) : Marks :=
  match parser.levels with
  | [] => ⟨0, 0⟩
  | level :: _ => level.marks

/-- Reads an operand. -/
def push (parser : Parser) (kind : TokenKind) (operand : Expr) : Parser :=
  { parser with previous := kind, operands := operand :: parser.operands }

/-- Opens a level on top of the stacks. -/
def descend (parser : Parser) (kind : TokenKind) (opening : Opening) :
    Parser :=
  { parser with
    previous := kind
    levels :=
      ⟨opening, ⟨parser.operators.length, parser.operands.length⟩⟩ ::
        parser.levels }

/-- Reads an operator sign. -/
def operate (parser : Parser) (symbol : Symbol) : Except ParseFault Parser := do
  let op ← Pending.ofSymbol parser.previous symbol
  let (operators, operands) ←
    reduceWhile op.yieldsTo parser.marks parser.operators parser.operands
  return { parser with previous := .op, operators := op :: operators, operands }

/-- Ends the expression of the innermost level: applies all of its operators
and takes the one operand that must be left. -/
def conclude (parser : Parser) : Except ParseFault (Expr × Parser) := do
  let (operators, operands) ←
    reduceWhile (fun _ => true) parser.marks parser.operators parser.operands
  match operands with
  | [] => .error .missingExpression
  | operand :: rest =>
    if rest.length < parser.marks.operands then .error .missingExpression
    else if parser.marks.operands < rest.length then .error .missingOperator
    else .ok (operand, { parser with operators, operands := rest })

/-- Reads a closing parenthesis. -/
def close (parser : Parser) : Except ParseFault Parser :=
  match parser.levels with
  | [] => .error .unopened
  | level :: outer => do
    let (inner, parser) ← parser.conclude
    let parser := { parser with levels := outer }
    match level.opening with
    | .group => return parser.push .right inner
    | .call function arguments =>
      return parser.push .right (.call function (arguments ++ [inner]))

/-- Reads a comma. -/
def separate (parser : Parser) : Except ParseFault Parser :=
  match parser.levels with
  | [] => .error .tuple
  | level :: outer => do
    let (inner, parser) ← parser.conclude
    match level.opening with
    | .group => .error .tuple
    | .call function arguments =>
      return { parser with levels := outer }.descend .comma
        (.call function (arguments ++ [inner]))

/-- Reads a token that is not the name of a call. -/
def step (parser : Parser) : Token → Except ParseFault Parser
  | .number value => .ok (parser.push .number (.constant value))
  | .identifier name => .ok (parser.push .identifier (.reference name))
  | .op symbol => parser.operate symbol
  | .left => .ok (parser.descend .left .group)
  | .right => parser.close
  | .comma => parser.separate

/-- Reads the end of the text. -/
def finish (parser : Parser) : Except ParseFault Expr := do
  let (result, parser) ← parser.conclude
  match parser.levels with
  | [] => return result
  | _ :: _ => .error .unclosed

/-- Puts the place of a lexeme to a fault. -/
def located (offset : Nat) (result : Except ParseFault α) : Except ParseError α :=
  result.mapError (⟨·, offset⟩)

/-- Reads lexemes up to the ending. A name in front of an opening parenthesis
is that of a call. -/
def run (ending : Except ParseError Nat) :
    Parser → List Lexeme → Except ParseError Expr
  | parser, [] =>
    match ending with
    | .error e => .error e
    | .ok length => located length parser.finish
  | parser, ⟨.identifier function, _, _⟩ :: ⟨.left, _, _⟩ :: rest =>
    run ending (parser.descend .left (.call function [])) rest
  | parser, lexeme :: rest =>
    match located lexeme.start (parser.step lexeme.token) with
    | .error e => .error e
    | .ok next => run ending next rest

end Parser

/-- The expression that a text stands for; blank text stands for none. -/
def parse (text : String) : Except ParseError (Option Expr) :=
  match lex text with
  | ⟨[], .ok _⟩ => .ok none
  | ⟨lexemes, ending⟩ => (Parser.run ending .start lexemes).map some

end FieldMesh.Formula
