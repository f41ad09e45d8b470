import FieldMesh.Json.Reader
import FieldMesh.Vector

/-!
# Taking values out of documents

What the values of a document say: numbers, texts, choices and records.

* `Decimal.Numeral.value?`: the number that a numeral stands for, in double
  precision or as an integer of 64 bits;
* `members?`: the fields of a record by name, also from a list of them in
  order;
* `choice?`: one of several names;
* `vector?`: a vector, which is written as a list of its three numbers
  (`ofVector`).
-/

namespace FieldMesh.Json

open FieldMesh.Decimal

/-! ## Numbers -/

/-- A number of a document. -/
inductive Number where
  /-- An integer of 64 bits. -/
  | natural (n : Nat)
  /-- The negative of a positive number, within 64 bits. -/
  | negative (n : Nat)
  | real (x : Float)

/-- Appends digits to a significand as long as it stays below `2 ^ 64`; the
second part has the digits that are left over. -/
def absorb (significand : Nat) : List Char → Nat × List Char
  | [] => (significand, [])
  | c :: rest =>
    let next := 10 * significand + (c.toNat - '0'.toNat)
    if UInt64.size ≤ next then (significand, c :: rest) else absorb next rest

/-- A power of ten in double precision, up to 308. -/
def powerOfTen (n : Nat) : Float := Float.ofScientific 1 false n

/-- Multiplies by a power of ten, in steps of at most 308 places. There is no
result beyond the range of double precision. -/
def scaleByTen (x : Float) (exponent : Int) : Option Float :=
  if exponent.natAbs ≤ 308 then
    if 0 ≤ exponent then
      let y := x * powerOfTen exponent.natAbs
      if y.isInf then none else some y
    else some (x / powerOfTen exponent.natAbs)
  else if x == 0.0 then some x
  else if 0 ≤ exponent then none
  else scaleByTen (x / powerOfTen 308) (exponent + 308)
termination_by exponent.natAbs

/-- The magnitude of a number that is not written as an integer of 64 bits:
its first digits, scaled. Digits that do not fit 64 bits are dropped. -/
def magnitude? (n : Numeral) : Option Float :=
  let (significand, overWhole) := absorb 0 n.whole
  let (significand, overFraction) := absorb significand n.fraction
  let place : Int :=
    overWhole.length - (n.fraction.length - overFraction.length : Nat)
  let x := (UInt64.ofNat significand).toFloat
  match n.exponent with
  | none => scaleByTen x place
  | some exponent =>
    if 0x80000000 ≤ exponent.natAbs then
      if significand = 0 ∨ exponent < 0 then some 0.0 else none
    else scaleByTen x (place + exponent)

/-- The number that a numeral stands for. Negative zero is no integer. -/
def value? (n : Numeral) : Option Number :=
  let (significand, excess) := absorb 0 n.whole
  if n.fraction.isEmpty && n.exponent.isNone && excess.isEmpty then
    if !n.negative then some (.natural significand)
    else if 0 < significand ∧ significand ≤ UInt64.size / 2 then
      some (.negative significand)
    else some (.real (-(UInt64.ofNat significand).toFloat))
  else (magnitude? n).map fun x => .real (if n.negative then -x else x)

/-- The single-precision number nearest to a number. -/
def Number.toFloat32 : Number → Float32
  | .natural n => (UInt64.ofNat n).toFloat32
  | .negative n => -(UInt64.ofNat n).toFloat32
  | .real x => Binary32.ofDouble x

/-- A single-precision number. -/
def float? : Json → Option Float32
  | .number n => (value? n).map Number.toFloat32
  | _ => none

/-- A natural number below a bound. -/
def natural? (bound : Nat) : Json → Option Nat
  | .number n =>
    match value? n with
    | some (.natural k) => if k < bound then some k else none
    | _ => none
  | _ => none

/-! ## Other values -/

/-- A text. -/
def text? : Json → Option String
  | .text content => content
  | _ => none

/-- A truth value. -/
def bool? : Json → Option Bool
  | .bool value => some value
  | _ => none

/-- A list with items of one kind. -/
def list? (item? : Json → Option α) : Json → Option (List α)
  | .list items => items.mapM item?
  | _ => none

/-- One of several names, as a text or as the only field of a record, which
then is null. -/
def choice? : Json → Option String
  | .text content => content
  | .record [(name, .null)] => name
  | _ => none

/-- The fields of a record with known names, in their order. They can be
given by name, each at most once and among others, or as a list in order,
which can end early. -/
def members? (names : List String) : Json → Option (List (Option Json))
  | .record fields =>
    if fields.all (fun field => field.1.isSome) &&
        names.all fun name => fields.countP (·.1 == some name) ≤ 1 then
      some (names.map fun name => fields.lookup (some name))
    else none
  | .list items =>
    if items.length ≤ names.length then
      some (items.map some ++
        List.replicate (names.length - items.length) none)
    else none
  | _ => none

/-- A field that has to be there. -/
def required (decode : Json → Option α) : Option Json → Option α
  | some value => decode value
  | none => none

/-- A field that has a default. -/
def optional (default : α) (decode : Json → Option α) :
    Option Json → Option α
  | some value => decode value
  | none => some default

/-! ## Vectors -/

/-- A vector as a list of its three numbers. -/
def ofVector (v : Vec3) : Json :=
  .list [ofFloat v.x, ofFloat v.y, ofFloat v.z]

/-- The vector of a list of three numbers. -/
def vector? : Json → Option Vec3
  | .list [x, y, z] => do return ⟨← float? x, ← float? y, ← float? z⟩
  | _ => none

end FieldMesh.Json
