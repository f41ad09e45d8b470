import FieldMesh.Json.Token

/-!
# Reading documents

Builds a value from tokens, one at a time, on a stack of the lists and
records that are still open.

* `readValue`: the value at the start of a list of tokens, and what follows;
* `read`: a text that starts with a value, and whether nothing follows it.
-/

namespace FieldMesh.Json

/-- A list or record that is still open, with its last part first. -/
inductive Frame where
  | list (done : List Json)
  /-- A record that waits for the value of a field. -/
  | record (done : List (Option String × Json)) (name : Option String)

/-- What has to come next. -/
inductive Expected where
  | value
  /-- A value, or the end of a list that was just opened. -/
  | item (outer : List Frame)
  /-- The name of a field of an open record; right after its start also the
  end. -/
  | name (done : List (Option String × Json)) (first : Bool)
  | colon
  /-- A comma, or the end of what is open. -/
  | separator

/-- Reads a value. -/
def readValue (expected : Expected) (open_ : List Frame) :
    List Token → Option (Json × List Token)
  | [] => none
  | token :: rest =>
    /- A complete value goes to the innermost open frame. -/
    let complete (value : Json) (open_ : List Frame) :
        Option (Json × List Token) :=
      match open_ with
      | [] => some (value, rest)
      | .list done :: outer =>
        readValue .separator (.list (value :: done) :: outer) rest
      | .record done name :: outer =>
        readValue .separator (.record ((name, value) :: done) none :: outer)
          rest
    match expected, token, open_ with
    | .value, .atom value, _ | .item _, .atom value, _ => complete value open_
    | .value, .openList, _ | .item _, .openList, _ =>
      readValue (.item open_) (.list [] :: open_) rest
    | .value, .openRecord, _ | .item _, .openRecord, _ =>
      readValue (.name [] true) open_ rest
    | .item outer, .closeList, _ => complete (.list []) outer
    | .name done _, .atom (.text name), _ =>
      readValue .colon (.record done name :: open_) rest
    | .name _ true, .closeRecord, _ => complete (.record []) open_
    | .colon, .colon, _ => readValue .value open_ rest
    | .separator, .comma, .list _ :: _ => readValue .value open_ rest
    | .separator, .comma, .record done _ :: outer =>
      readValue (.name done false) outer rest
    | .separator, .closeList, .list done :: outer =>
      complete (.list done.reverse) outer
    | .separator, .closeRecord, .record done _ :: outer =>
      complete (.record done.reverse) outer
    | _, _, _ => none

/-- A value at the start of a text, and whether nothing but blanks follows
it. -/
def read (text : String) : Option (Json × Bool) :=
  let (all, complete) := tokens text
  (readValue .value [] all).map fun (value, rest) =>
    (value, rest.isEmpty && complete)

/-- The value that makes up a text. -/
def read? (text : String) : Option Json :=
  match read text with
  | some (value, true) => some value
  | _ => none

end FieldMesh.Json
