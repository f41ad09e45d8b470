/-!
# Single-precision numbers, exactly

A finite single-precision number is an integer multiple of `2 ^ -149`. This
file reads that integer off the 32 bits and writes it back, so that the
operations the arithmetic of `Float32` lacks can be done in `Nat`:

* `parts`, `ofMagnitude`: between the bits and the exact value;
* `remainder`: the remainder of a division that truncates;
* `truncate`: the whole part, held within 32 bits;
* `ofDouble`: the single-precision number nearest to a double-precision one.
-/

namespace FieldMesh.Binary32

/-! ## Bits and values -/

/-- The bit of the sign. -/
def signBit : Nat := 0x80000000

/-- The least mantissa of a normal number. Its highest bit is not among the
bits of the number. -/
def leastNormal : Nat := 0x800000

/-- What a single-precision number stands for. A finite number is
`mantissa * 2 ^ scale / 2 ^ 149`, up to its sign. -/
inductive Parts where
  | notANumber
  | infinite (negative : Bool)
  | finite (negative : Bool) (mantissa scale : Nat)
  deriving DecidableEq, Repr

/-- The number is below zero or a negative zero. -/
def isNegative (x : Float32) : Bool :=
  signBit ≤ x.toBits.toNat

/-- Reads the sign, the biased exponent and the fraction of the bits. -/
def parts (x : Float32) : Parts :=
  let biased := x.toBits.toNat / leastNormal % 256
  let fraction := x.toBits.toNat % leastNormal
  if biased = 255 then
    if fraction = 0 then .infinite (isNegative x) else .notANumber
  else if biased = 0 then .finite (isNegative x) fraction 0
  else .finite (isNegative x) (leastNormal + fraction) (biased - 1)

/-- The one value that is not a number. -/
def notANumber : Float32 := .ofBits 0x7FC00000

/-- The same magnitude with the largest mantissa below `2 ^ 24` that the
scale allows. -/
def normalize (mantissa : Nat) : Nat → Nat × Nat
  | 0 => (mantissa, 0)
  | scale + 1 =>
    if mantissa < leastNormal then normalize (2 * mantissa) scale
    else (mantissa, scale + 1)

/-- The number `mantissa * 2 ^ scale / 2 ^ 149` for a mantissa below
`2 ^ 24`. -/
def ofMagnitude (negative : Bool) (mantissa scale : Nat) : Float32 :=
  let sign := if negative then signBit else 0
  let (m, s) := normalize mantissa scale
  let magnitude :=
    if m < leastNormal then m
    else (s + 1) * leastNormal + (m - leastNormal)
  .ofBits (UInt32.ofNat (sign + magnitude))

/-! ## Remainder -/

/-- The remainder of the division of `x` by `y` that truncates towards zero.
It is exact, and has the sign of `x`. -/
def remainder (x y : Float32) : Float32 :=
  match parts x, parts y with
  | .finite negative m s, .finite _ n t =>
    if n = 0 then notANumber
    else
      let low := min s t
      ofMagnitude negative ((m <<< (s - low)) % (n <<< (t - low))) low
  | .finite .., .infinite _ => x
  | _, _ => notANumber

/-! ## Whole part -/

/-- The whole part as an integer of 32 bits. Magnitudes that do not fit stop
at the nearest bound, and what is not a number counts as zero. -/
def truncate (x : Float32) : Int :=
  let signed (negative : Bool) (n : Nat) : Int :=
    if negative then -(min n signBit : Nat) else (min n (signBit - 1) : Nat)
  match parts x with
  | .notANumber => 0
  | .infinite negative => signed negative signBit
  | .finite negative mantissa scale =>
    signed negative ((mantissa <<< scale) >>> 149)

/-! ## Rounding double precision -/

/-- `n / 2 ^ k`, rounded to the nearest whole number. A half goes to the even
one of its neighbours. -/
def shiftRounded (n k : Nat) : Nat :=
  let floor := n >>> k
  match compare (2 * (n - floor <<< k)) (1 <<< k) with
  | .lt => floor
  | .gt => floor + 1
  | .eq => floor + floor % 2

/-- The bit of the sign in double precision. -/
def doubleSignBit : Nat := 0x8000000000000000

/-- The least mantissa of a normal number in double precision. -/
def leastDouble : Nat := 0x10000000000000

/-- The nearest single-precision number. A normal number of double precision
is `mantissa * 2 ^ scale / 2 ^ 1074` with 53 bits in the mantissa, of which 24
are kept, or fewer near zero. What is not normal is too small to count. -/
def ofDouble (x : Float) : Float32 :=
  let bits := x.toBits.toNat
  let negative : Bool := doubleSignBit ≤ bits
  let biased := bits / leastDouble % 2048
  let fraction := bits % leastDouble
  if biased = 2047 ∧ fraction ≠ 0 then notANumber
  else if 253 + 896 < biased - 1 then ofMagnitude negative (2 * leastNormal) 253
  else if biased = 0 then ofMagnitude negative 0 0
  else
    let scale := biased - 1
    let kept := shiftRounded (leastDouble + fraction) (max 29 (925 - scale))
    ofMagnitude negative kept (scale - 896)

end FieldMesh.Binary32
