import FieldMesh.Binary32

/-!
# Reading numbers

The single-precision number that a decimal text stands for, correctly
rounded. Two readers share the rounding:

* `point?`: digits with at most one point, as in formula text;
* `number?`: a whole argument, with a sign, an exponent, or the words for
  infinity and for what is not a number.
-/

namespace FieldMesh.Decimal

/-! ## Rounding -/

/-- The number that decimal digits stand for. -/
def ofDigits (digits : List Char) : Nat :=
  digits.foldl (fun n c => 10 * n + (c.toNat - '0'.toNat)) 0

/-- The single-precision number nearest to `coefficient * 10 ^ place`. What
lies beyond every number of that format is decided from the count of digits,
before any power of ten is formed. -/
def nearest (coefficient : Nat) (place : Int) : Float32 :=
  if coefficient = 0 then 0.0
  else
    let leading := ((Nat.toDigits 10 coefficient).length : Int) + place
    if 60 < leading then .ofBits 0x7F800000
    else if leading < -60 then 0.0
    else if 0 ≤ place then Float32.ofScientific coefficient false place.toNat
    else Float32.ofScientific coefficient true (-place).toNat

/-! ## Digits with a point -/

/-- Digits, and those after a point if there is one. -/
structure Point where
  whole : List Char
  fraction? : Option (List Char)
  deriving Repr

/-- The digits after the point. -/
def Point.fraction (point : Point) : List Char := point.fraction?.getD []

/-- The characters of the number. -/
def Point.spelled (point : Point) : List Char :=
  point.whole ++ match point.fraction? with
    | none => []
    | some fraction => '.' :: fraction

/-- The digits at the start of a text, with at most one point among them,
and what follows. -/
def Point.span (text : List Char) : Point × List Char :=
  let whole := text.takeWhile Char.isDigit
  match text.dropWhile Char.isDigit with
  | '.' :: rest =>
    (⟨whole, some (rest.takeWhile Char.isDigit)⟩, rest.dropWhile Char.isDigit)
  | rest => (⟨whole, none⟩, rest)

/-- Nothing of the text is lost. -/
theorem Point.spelled_append_span (text : List Char) :
    (Point.span text).1.spelled ++ (Point.span text).2 = text := by
  have whole := List.takeWhile_append_dropWhile (p := Char.isDigit) (l := text)
  unfold Point.span
  split
  · next rest after =>
    rw [after] at whole
    simp [Point.spelled, List.takeWhile_append_dropWhile, whole]
  · simp [Point.spelled, List.takeWhile_append_dropWhile]

/-- The value of the digits, times a power of ten. -/
def Point.value (point : Point) (exponent : Int) : Float32 :=
  nearest (ofDigits (point.whole ++ point.fraction))
    (exponent - point.fraction.length)

/-- Without a digit on either side, a point is no number. -/
def Point.isEmpty (point : Point) : Bool :=
  point.whole.isEmpty && point.fraction.isEmpty

/-- Reads digits with at most one point. -/
def point? (text : List Char) : Option Float32 :=
  match Point.span text with
  | (point, []) => if point.isEmpty then none else some (point.value 0)
  | (_, _ :: _) => none

/-! ## Arguments -/

/-- Splits a leading sign off; the first part is true for a minus. -/
def splitSign : List Char → Bool × List Char
  | '-' :: rest => (true, rest)
  | '+' :: rest => (false, rest)
  | text => (false, text)

/-- Reads the digits of an exponent, with an optional sign. -/
def exponent? (text : List Char) : Option Int :=
  let (negative, digits) := splitSign text
  if digits.isEmpty || !digits.all Char.isDigit then none
  else if negative then some (-(ofDigits digits : Int))
  else some (ofDigits digits)

/-- Reads a number without its sign. -/
def magnitude? (text : List Char) : Option Float32 :=
  match text.map Char.toLower with
  | ['i', 'n', 'f'] | ['i', 'n', 'f', 'i', 'n', 'i', 't', 'y'] =>
    some (.ofBits 0x7F800000)
  | ['n', 'a', 'n'] => some Binary32.notANumber
  | _ =>
    let (point, rest) := Point.span text
    if point.isEmpty then none
    else match rest with
      | [] => some (point.value 0)
      | c :: rest =>
        if c = 'e' ∨ c = 'E' then (exponent? rest).map point.value else none

/-- Reads a number that makes up the whole text. -/
def number? (text : List Char) : Option Float32 :=
  let (negative, rest) := splitSign text
  (magnitude? rest).map fun x => if negative then -x else x

end FieldMesh.Decimal
