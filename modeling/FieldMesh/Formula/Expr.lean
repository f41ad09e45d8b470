import FieldMesh.Decimal.Text

/-!
# Expressions

The trees that formula text stands for, their canonical text with every
binary operation in parentheses, and their nodes in preorder.
-/

namespace FieldMesh.Formula

/-- A sign in front of an operand. -/
inductive UnaryOp where
  | plus
  | minus
  deriving DecidableEq, Repr

/-- The text of a sign. -/
def UnaryOp.text : UnaryOp → String
  | .plus => "+"
  | .minus => "-"

/-- An operation on two operands. -/
inductive BinaryOp where
  | add
  | sub
  | mul
  | div
  | mod
  deriving DecidableEq, Repr

/-- The text of an operation. -/
def BinaryOp.text : BinaryOp → String
  | .add => "+"
  | .sub => "-"
  | .mul => "*"
  | .div => "/"
  | .mod => "%"

/-- An expression. -/
inductive Expr where
  | constant (value : Float32)
  /-- A parameter or a variable, in lower case. -/
  | reference (name : String)
  | unary (op : UnaryOp) (operand : Expr)
  | binary (op : BinaryOp) (left right : Expr)
  | call (function : String) (arguments : List Expr)

instance : Inhabited Expr := ⟨.constant 0.0⟩

/-! ## Canonical text -/

mutual

/-- The canonical text of an expression: names carry a dollar sign, binary
operations stand in parentheses. -/
def Expr.text : Expr → String
  | .constant value => Decimal.formulaText value
  | .reference name => "$" ++ name
  | .unary op operand => op.text ++ operand.text
  | .binary op left right =>
    "(" ++ left.text ++ " " ++ op.text ++ " " ++ right.text ++ ")"
  | .call function arguments =>
    function ++ "(" ++ Expr.argumentText arguments ++ ")"

/-- The canonical text of arguments, with a comma between two of them. -/
def Expr.argumentText : List Expr → String
  | [] => ""
  | argument :: rest => argument.text ++ Expr.furtherText rest

/-- The canonical text of the arguments after the first. -/
def Expr.furtherText : List Expr → String
  | [] => ""
  | argument :: rest => ", " ++ argument.text ++ Expr.furtherText rest

end

/-! ## Nodes -/

mutual

/-- Every expression within one, itself first, operands from left to
right. -/
def Expr.preorder : Expr → List Expr
  | .constant value => [.constant value]
  | .reference name => [.reference name]
  | .unary op operand => .unary op operand :: operand.preorder
  | .binary op left right =>
    .binary op left right :: (left.preorder ++ right.preorder)
  | .call function arguments =>
    .call function arguments :: Expr.preorderAll arguments

/-- The expressions within a list of them, one after the other. -/
def Expr.preorderAll : List Expr → List Expr
  | [] => []
  | e :: rest => e.preorder ++ Expr.preorderAll rest

end

end FieldMesh.Formula
