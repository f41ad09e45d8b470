import FieldMesh.Json.Basic

/-!
# Tokens of documents

Cuts the text of a document into punctuation and values without parts. A
malformed token ends the list; so does the end of the text.

* `readQuoted`: a text in quotes, with its escapes resolved;
* `readNumeral`: a number;
* `tokens`: all tokens up to the first malformed one.
-/

namespace FieldMesh.Json

/-- A token of a document. -/
inductive Token where
  | openList
  | closeList
  | openRecord
  | closeRecord
  | comma
  | colon
  /-- A value without parts. -/
  | atom (value : Json)

/-- The blanks between tokens. -/
def isSpace (c : Char) : Bool :=
  c == ' ' || c == '\t' || c == '\n' || c == '\r'

/-! ## Texts -/

/-- A part of a quoted text: a character, or a surrogate given by its
code. -/
inductive Piece where
  | char (c : Char)
  | surrogate (code : Nat)

/-- The value of a hexadecimal digit. -/
def hexValue? (c : Char) : Option Nat :=
  if '0' ≤ c ∧ c ≤ '9' then some (c.toNat - '0'.toNat)
  else if 'a' ≤ c ∧ c ≤ 'f' then some (c.toNat - 'a'.toNat + 10)
  else if 'A' ≤ c ∧ c ≤ 'F' then some (c.toNat - 'A'.toNat + 10)
  else none

/-- The value of four hexadecimal digits. -/
def hexCode? (a b c d : Char) : Option Nat := do
  return 4096 * (← hexValue? a) + 256 * (← hexValue? b) +
    16 * (← hexValue? c) + (← hexValue? d)

/-- The part that a code stands for. -/
def Piece.ofCode (code : Nat) : Piece :=
  if 0xD800 ≤ code ∧ code < 0xE000 then .surrogate code
  else .char (Char.ofNat code)

/-- The character that a letter after a backslash stands for. -/
def escaped? (c : Char) : Option Char :=
  match c with
  | '"' => some '"'
  | '\\' => some '\\'
  | '/' => some '/'
  | 'b' => some '\x08'
  | 'f' => some '\x0c'
  | 'n' => some '\n'
  | 'r' => some '\r'
  | 't' => some '\t'
  | _ => none

/-- Reads the parts of a text up to the closing quote. -/
def readPieces (done : List Piece) :
    List Char → Option (List Piece × List Char)
  | [] => none
  | '"' :: rest => some (done.reverse, rest)
  | '\\' :: 'u' :: a :: b :: c :: d :: rest =>
    match hexCode? a b c d with
    | some code => readPieces (.ofCode code :: done) rest
    | none => none
  | '\\' :: c :: rest =>
    match escaped? c with
    | some c => readPieces (.char c :: done) rest
    | none => none
  | c :: rest =>
    if c.toNat < 0x20 ∨ c = '\\' then none
    else readPieces (.char c :: done) rest

/-- Joins the parts of a text. A high surrogate needs a low one after it. -/
def joinPieces : List Piece → Option (List Char)
  | [] => some []
  | .char c :: rest => (joinPieces rest).map (c :: ·)
  | .surrogate high :: .surrogate low :: rest =>
    if high < 0xDC00 ∧ 0xDC00 ≤ low then
      (joinPieces rest).map
        (Char.ofNat (0x10000 + 0x400 * (high - 0xD800) + (low - 0xDC00)) :: ·)
    else none
  | .surrogate _ :: _ => none

/-- Reads a text after its opening quote. -/
def readQuoted (text : List Char) : Option (Option String × List Char) :=
  (readPieces [] text).map fun (pieces, rest) =>
    ((joinPieces pieces).map String.ofList, rest)

/-! ## Numbers -/

/-- Splits digits off, of which there has to be one. -/
def readDigits (text : List Char) : Option (List Char × List Char) :=
  let digits := text.takeWhile Char.isDigit
  if digits.isEmpty then none else some (digits, text.dropWhile Char.isDigit)

/-- Reads the digits before the point. Only zero itself starts with a
zero. -/
def readWhole (text : List Char) : Option (List Char × List Char) := do
  let (digits, rest) ← readDigits text
  if digits.head? = some '0' ∧ 1 < digits.length then none
  else return (digits, rest)

/-- Reads a point and the digits after it, if there is one. -/
def readFraction : List Char → Option (List Char × List Char)
  | '.' :: rest => readDigits rest
  | chars => some ([], chars)

/-- Reads the sign of an exponent. -/
def readSign : List Char → Bool × List Char
  | '-' :: rest => (true, rest)
  | '+' :: rest => (false, rest)
  | chars => (false, chars)

/-- The number that digits stand for. -/
def digitsValue (digits : List Char) : Nat :=
  digits.foldl (fun n c => 10 * n + (c.toNat - '0'.toNat)) 0

/-- Reads an exponent, if there is one. -/
def readExponent (text : List Char) : Option (Option Int × List Char) :=
  match text with
  | c :: rest =>
    if c = 'e' ∨ c = 'E' then do
      let (negative, rest) := readSign rest
      let (digits, rest) ← readDigits rest
      let n : Int := digitsValue digits
      return (some (if negative then -n else n), rest)
    else some (none, text)
  | [] => some (none, text)

/-- Reads a number. -/
def readNumeral (text : List Char) :
    Option (Decimal.Numeral × List Char) := do
  let (negative, rest) := match text with
    | '-' :: rest => (true, rest)
    | _ => (false, text)
  let (whole, rest) ← readWhole rest
  let (fraction, rest) ← readFraction rest
  let (exponent, rest) ← readExponent rest
  return (⟨negative, whole, fraction, exponent⟩, rest)

/-! ## All tokens -/

/-- Reads the token that starts with a character. -/
def readToken (c : Char) (rest : List Char) : Option (Token × List Char) :=
  match c, rest with
  | '[', _ => some (.openList, rest)
  | ']', _ => some (.closeList, rest)
  | '\x7b', _ => some (.openRecord, rest)
  | '\x7d', _ => some (.closeRecord, rest)
  | ',', _ => some (.comma, rest)
  | ':', _ => some (.colon, rest)
  | '"', _ => (readQuoted rest).map fun (s, rest) => (.atom (.text s), rest)
  | 'n', 'u' :: 'l' :: 'l' :: rest => some (.atom .null, rest)
  | 't', 'r' :: 'u' :: 'e' :: rest => some (.atom (.bool true), rest)
  | 'f', 'a' :: 'l' :: 's' :: 'e' :: rest => some (.atom (.bool false), rest)
  | _, _ =>
    (readNumeral (c :: rest)).map fun (n, rest) => (.atom (.number n), rest)

/-- Reads tokens up to the end or to the first malformed one; `fuel` bounds
their number. The second part tells whether the end was reached. -/
def readTokens (done : List Token) : Nat → List Char → List Token × Bool
  | 0, chars => (done.reverse, chars.isEmpty)
  | fuel + 1, chars =>
    match chars.dropWhile isSpace with
    | [] => (done.reverse, true)
    | c :: rest =>
      match readToken c rest with
      | none => (done.reverse, false)
      | some (token, rest) => readTokens (token :: done) fuel rest

/-- The tokens of a text, and whether all of it is well formed. Every token
takes a character. -/
def tokens (text : String) : List Token × Bool :=
  readTokens [] text.length text.toList

end FieldMesh.Json
