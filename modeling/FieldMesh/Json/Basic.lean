import FieldMesh.Decimal.Text

/-!
# Documents

Values of the data format in which formulas, programs and requests are
stored: nulls, truth values, numbers, texts, lists and records.
-/

namespace FieldMesh

/-- A value of a document. A text is `none` if it has half of a surrogate
pair on its own: such a text can be passed over but not read. -/
inductive Json where
  | null
  | bool (value : Bool)
  | number (numeral : Decimal.Numeral)
  | text (content : Option String)
  | list (items : List Json)
  | record (fields : List (Option String × Json))

namespace Json

/-- A text. -/
def ofText (s : String) : Json := .text (some s)

/-- A record with plain names. -/
def ofFields (fields : List (String × Json)) : Json :=
  .record (fields.map fun (name, value) => (some name, value))

/-- A natural number. -/
def ofNat (n : Nat) : Json := .number ⟨false, Nat.toDigits 10 n, [], none⟩

/-- A single-precision number. What is not finite becomes null. -/
def ofFloat (x : Float32) : Json :=
  match Decimal.documentNumeral? x with
  | some numeral => .number numeral
  | none => .null

end Json

end FieldMesh
