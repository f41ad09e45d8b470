import FieldMesh.Json.Basic

/-!
# Writing documents

Two layouts of a document: `compact` without any blanks, and `pretty` with
one item per line and two spaces per level. In texts the quote, the backslash
and control characters are escaped, and nothing else is.
-/

namespace FieldMesh.Json

/-! ## Texts -/

/-- A hexadecimal digit. -/
def hexDigit (n : Nat) : Char := Nat.digitChar n

/-- A character within a quoted text. -/
def escape (c : Char) : List Char :=
  if c = '"' then ['\\', '"']
  else if c = '\\' then ['\\', '\\']
  else if 0x20 ≤ c.toNat then [c]
  else match c.toNat with
    | 0x08 => ['\\', 'b']
    | 0x09 => ['\\', 't']
    | 0x0A => ['\\', 'n']
    | 0x0C => ['\\', 'f']
    | 0x0D => ['\\', 'r']
    | code => ['\\', 'u', '0', '0', hexDigit (code / 16), hexDigit (code % 16)]

/-- A text in quotes. -/
def quoted (s : String) : String :=
  "\"" ++ String.ofList (s.toList.flatMap escape) ++ "\""

/-- The text of a name or of a text value. -/
def quotedText (content : Option String) : String :=
  quoted (content.getD "")

/-! ## Compact layout -/

mutual

/-- The text of a value without blanks. -/
def compact : Json → String
  | .null => "null"
  | .bool value => if value then "true" else "false"
  | .number numeral => numeral.text
  | .text content => quotedText content
  | .list items => "[" ++ compactItems items ++ "]"
  | .record fields => "\x7b" ++ compactFields fields ++ "\x7d"

/-- The text of the items of a list. -/
def compactItems : List Json → String
  | [] => ""
  | [item] => item.compact
  | item :: rest => item.compact ++ "," ++ compactItems rest

/-- The text of the fields of a record. -/
def compactFields : List (Option String × Json) → String
  | [] => ""
  | [(name, value)] => quotedText name ++ ":" ++ value.compact
  | (name, value) :: rest =>
    quotedText name ++ ":" ++ value.compact ++ "," ++ compactFields rest

end

/-! ## Layout on several lines -/

/-- The start of a line at a level. -/
def indentation (level : Nat) : String :=
  String.ofList (List.replicate (2 * level) ' ')

mutual

/-- The text of a value with an item per line, at a level. -/
def prettyAt (level : Nat) : Json → String
  | .null => "null"
  | .bool value => if value then "true" else "false"
  | .number numeral => numeral.text
  | .text content => quotedText content
  | .list [] => "[]"
  | .list (item :: rest) =>
    "[\n" ++ prettyItems (level + 1) (item :: rest) ++ "\n" ++
      indentation level ++ "]"
  | .record [] => "\x7b\x7d"
  | .record (field :: rest) =>
    "\x7b\n" ++ prettyFields (level + 1) (field :: rest) ++ "\n" ++
      indentation level ++ "\x7d"

/-- The lines of the items of a list. -/
def prettyItems (level : Nat) : List Json → String
  | [] => ""
  | [item] => indentation level ++ item.prettyAt level
  | item :: rest =>
    indentation level ++ item.prettyAt level ++ ",\n" ++ prettyItems level rest

/-- The lines of the fields of a record. -/
def prettyFields (level : Nat) : List (Option String × Json) → String
  | [] => ""
  | [(name, value)] =>
    indentation level ++ quotedText name ++ ": " ++ value.prettyAt level
  | (name, value) :: rest =>
    indentation level ++ quotedText name ++ ": " ++ value.prettyAt level ++
      ",\n" ++ prettyFields level rest

end

/-- The text of a document with an item per line. -/
def pretty (document : Json) : String := document.prettyAt 0

end FieldMesh.Json
