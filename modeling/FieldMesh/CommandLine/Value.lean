import FieldMesh.Decimal.Reading
import FieldMesh.Text.Blank
import FieldMesh.Vector

/-!
# Values of arguments

What the values of command line arguments stand for.

* `readVector`: three numbers with commas between them, or one for all three;
* `readBinding`: a name with a vector;
* `readCount?`: a natural number below `2 ^ 32`.
-/

namespace FieldMesh.CommandLine

/-- Why a value is refused. -/
inductive ValueError where
  /-- Nothing where a number has to be. -/
  | noNumber
  /-- A text that is no number. -/
  | notANumber (text : String)
  /-- Neither one number nor three. -/
  | components (count : Nat)
  /-- A text without an equals sign. -/
  | noEquals (text : String)
  /-- Nothing before the equals sign. -/
  | noName
  deriving DecidableEq, Repr

/-- The wording of an error. -/
def ValueError.message : ValueError → String
  | .noNumber => "'': cannot parse float from empty string"
  | .notANumber text => "'" ++ text ++ "': invalid float literal"
  | .components count =>
    "expected 1 or 3 components, got " ++ toString count
  | .noEquals text => "expected name=value, got '" ++ text ++ "'"
  | .noName => "parameter name is empty"

/-- A text without the blanks at its ends. -/
def trimmed (text : String) : String :=
  String.ofList (Text.trim text.toList)

/-- Reads a number that may have blanks around it. -/
def readNumber (text : String) : Except ValueError Float32 :=
  let text := trimmed text
  if text.isEmpty then .error .noNumber
  else match Decimal.number? text.toList with
    | some x => .ok x
    | none => .error (.notANumber text)

/-- Reads a vector: three numbers, or one for all three. The first part that
is no number is the one that counts as wrong. -/
def readVector (text : String) : Except ValueError Vec3 := do
  match ← (text.splitOn ",").mapM readNumber with
  | [s] => return .splat s
  | [x, y, z] => return ⟨x, y, z⟩
  | parts => throw (.components parts.length)

/-- The parts of a text before and after its first equals sign. -/
def splitEquals (text : String) : Option (String × String) :=
  match text.toList.span (· != '=') with
  | (name, _ :: value) => some (String.ofList name, String.ofList value)
  | (_, []) => none

/-- Reads a name with a vector. -/
def readBinding (text : String) : Except ValueError (String × Vec3) := do
  match splitEquals text with
  | none => throw (.noEquals text)
  | some (name, value) =>
    let name := trimmed name
    if name.isEmpty then throw .noName
    return (name, ← readVector value)

/-- Reads a natural number below `2 ^ 32`, with an optional sign. -/
def readCount? (text : String) : Option UInt32 :=
  let (negative, digits) := Decimal.splitSign text.toList
  if digits.isEmpty || !digits.all Char.isDigit then none
  else
    let n := Decimal.ofDigits digits
    if UInt32.size ≤ n || (negative && n != 0) then none
    else some (.ofNat n)

end FieldMesh.CommandLine
