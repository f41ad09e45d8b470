/-!
# Errors in formula text

What can be wrong with the text of a formula, and where. `ParseFault.message`
and `ParseError.message` hold the wording.
-/

namespace FieldMesh.Formula

/-- A fault in the text of a formula. -/
inductive ParseFault where
  /-- A number without digits or with a second point. -/
  | invalidNumber (text : String)
  /-- An operator with nothing to apply to. -/
  | missingOperand (symbol : String)
  /-- An expression was expected and none was found. -/
  | missingExpression
  /-- Two operands follow each other. -/
  | missingOperator
  /-- A comma outside the arguments of a call. -/
  | tuple
  /-- A closing parenthesis that closes nothing. -/
  | unopened
  /-- A parenthesis that is not closed. -/
  | unclosed
  deriving DecidableEq, Repr

/-- The wording of a fault. -/
def ParseFault.message : ParseFault → String
  | .invalidNumber text => "Invalid number: '" ++ text ++ "'"
  | .missingOperand symbol =>
    "Missing operand for the " ++ symbol ++ " operator in the expression"
  | .missingExpression => "Expected an expression"
  | .missingOperator => "Missing operator between operands"
  | .tuple => "Tuples not supported"
  | .unopened => "Mismatched parens"
  | .unclosed => "Mismatched parens, missing a closing parens"

/-- A fault and the byte of the trimmed text at which it was noticed. -/
structure ParseError where
  fault : ParseFault
  offset : Nat
  deriving DecidableEq, Repr

/-- The wording of a fault with its place. -/
def ParseError.message (e : ParseError) : String :=
  e.fault.message ++ " (at offset " ++ toString e.offset ++ ")"

end FieldMesh.Formula
