import FieldMesh.Decimal.Shortest

/-!
# Writing numbers

The numeral of a single-precision number in two styles. Both write the
shortest digits that read back; they differ in when an exponent is used, in
what a whole number looks like, and in how a tie between two shortest
decimals goes.

* `Numeral`: a number as it is written, with a sign, digits before and after the
  point, and an exponent;
* `Style.formula`: never an exponent, whole numbers without a point;
* `Style.document`: a point in every number, and an exponent where that of
  the first digit is not from -6 to 12.
-/

namespace FieldMesh.Decimal

/-! ## Numerals -/

/-- A number as written. -/
structure Numeral where
  negative : Bool
  /-- The digits before the point. -/
  whole : List Char
  /-- The digits after the point; without any, there is no point. -/
  fraction : List Char
  exponent : Option Int
  deriving DecidableEq, Repr

/-- The characters of an exponent, which always has a sign. -/
def exponentChars (exponent : Int) : List Char :=
  'e' :: (if exponent < 0 then '-' else '+') ::
    Nat.toDigits 10 exponent.natAbs

/-- The characters of a number. -/
def Numeral.chars (n : Numeral) : List Char :=
  (if n.negative then ['-'] else []) ++ n.whole ++
    (if n.fraction.isEmpty then [] else '.' :: n.fraction) ++
    match n.exponent with
    | none => []
    | some exponent => exponentChars exponent

/-- The text of a number. -/
def Numeral.text (n : Numeral) : String := String.ofList n.chars

/-! ## Styles -/

/-- How numbers are written. -/
structure Style where
  tie : Tie
  /-- Whether a number whose first digit has this exponent is written without
  one. -/
  positional : Int → Bool
  /-- The digits after the point of a whole number written without an
  exponent. -/
  afterWhole : List Char

/-- Formulas, listings and meshes write numbers without an exponent, and
whole numbers without a point. -/
def Style.formula : Style where
  tie := .up
  positional := fun _ => true
  afterWhole := []

/-- Documents write a point in every number without an exponent, and use one
only for very small and very large numbers. -/
def Style.document : Style where
  tie := .even
  positional := fun e => -6 ≤ e && e ≤ 12
  afterWhole := ['0']

/-- The numeral of a decimal without an exponent. -/
def positionalNumeral (style : Style) (negative : Bool) (decimal : Decimal) :
    Numeral :=
  let digits := decimal.digits
  let leading := decimal.leading
  if leading < 0 then
    ⟨negative, ['0'], List.replicate (-leading - 1).toNat '0' ++ digits, none⟩
  else if 0 ≤ decimal.place then
    ⟨negative, digits ++ List.replicate decimal.place.toNat '0',
      style.afterWhole, none⟩
  else
    let whole := (leading + 1).toNat
    ⟨negative, digits.take whole, digits.drop whole, none⟩

/-- The numeral of a decimal with one digit before the point and an
exponent. -/
def exponentNumeral (negative : Bool) (decimal : Decimal) : Numeral :=
  ⟨negative, decimal.digits.take 1, decimal.digits.drop 1,
    some decimal.leading⟩

/-- The numeral of a number that is `mantissa * 2 ^ scale / 2 ^ 149` up to its
sign. -/
def Style.numeral (style : Style) (negative : Bool) (mantissa scale : Nat) :
    Numeral :=
  if mantissa = 0 then ⟨negative, ['0'], style.afterWhole, none⟩
  else
    let decimal := (shortest style.tie mantissa scale).trimmed
    if style.positional decimal.leading then
      positionalNumeral style negative decimal
    else exponentNumeral negative decimal

/-- The text of a number in formulas. -/
def formulaText (x : Float32) : String :=
  match Binary32.parts x with
  | .notANumber => "NaN"
  | .infinite negative => if negative then "-inf" else "inf"
  | .finite negative mantissa scale =>
    (Style.formula.numeral negative mantissa scale).text

/-- The numeral of a finite number in documents. -/
def documentNumeral? (x : Float32) : Option Numeral :=
  match Binary32.parts x with
  | .notANumber | .infinite _ => none
  | .finite negative mantissa scale =>
    some (Style.document.numeral negative mantissa scale)

end FieldMesh.Decimal
