import FieldMesh.Scalar

/-!
# Vectors

Vectors of three single-precision numbers. Every operation rounds each of its
steps, in the order written here. Two vectors are equal (`=`) if they agree
bit for bit; `sameNumbers` compares the numbers they stand for.
-/

namespace FieldMesh

/-- A vector of three single-precision numbers. -/
structure Vec3 where
  x : Float32
  y : Float32
  z : Float32
  deriving DecidableEq

namespace Vec3

/-! ## Building vectors -/

/-- The vector with one number in every place. -/
def splat (s : Float32) : Vec3 := ⟨s, s, s⟩

/-- The zero vector. -/
def zero : Vec3 := splat 0.0

instance : Inhabited Vec3 := ⟨zero⟩

/-- Applies a function in every place. -/
def map (f : Float32 → Float32) (v : Vec3) : Vec3 := ⟨f v.x, f v.y, f v.z⟩

/-- Combines two vectors place by place. -/
def zipWith (f : Float32 → Float32 → Float32) (a b : Vec3) : Vec3 :=
  ⟨f a.x b.x, f a.y b.y, f a.z b.z⟩

/-! ## Operations in every place -/

instance : Add Vec3 := ⟨zipWith (· + ·)⟩
instance : Sub Vec3 := ⟨zipWith (· - ·)⟩
instance : Mul Vec3 := ⟨zipWith (· * ·)⟩
instance : Div Vec3 := ⟨zipWith (· / ·)⟩
instance : Mod Vec3 := ⟨zipWith Binary32.remainder⟩
instance : Neg Vec3 := ⟨map (- ·)⟩

/-- Multiplies every place by a number. -/
def scale (v : Vec3) (s : Float32) : Vec3 := v.map (· * s)

/-- Divides every place by a number. -/
def shrink (v : Vec3) (s : Float32) : Vec3 := v.map (· / s)

/-- The magnitude in every place. -/
def abs : Vec3 → Vec3 := map Float32.abs

/-- The smaller number in every place. -/
def least : Vec3 → Vec3 → Vec3 := zipWith Scalar.least

/-- The greater number in every place. -/
def greatest : Vec3 → Vec3 → Vec3 := zipWith Scalar.greatest

/-- Holds every place between bounds. -/
def clamp (v low high : Vec3) : Vec3 := (v.greatest low).least high

/-! ## Lengths and products -/

/-- The scalar product, summed from the left. -/
def dot (a b : Vec3) : Float32 := a.x * b.x + a.y * b.y + a.z * b.z

/-- The square of the length. -/
def squaredLength (v : Vec3) : Float32 := v.dot v

/-- The length. -/
def length (v : Vec3) : Float32 := v.squaredLength.sqrt

/-- The vector product. -/
def cross (a b : Vec3) : Vec3 :=
  ⟨a.y * b.z - b.y * a.z, a.z * b.x - b.z * a.x, a.x * b.y - b.x * a.y⟩

/-- The greatest of the three numbers. -/
def maxElement (v : Vec3) : Float32 :=
  Scalar.greatest v.x (Scalar.greatest v.y v.z)

/-- The vector of length one in the same direction, or zero where there is
none. -/
def normalizeOrZero (v : Vec3) : Vec3 :=
  let reciprocal := 1.0 / v.length
  if reciprocal.isFinite && reciprocal > 0.0 then v.scale reciprocal else zero

/-! ## Comparison -/

/-- Whether two vectors stand for the same numbers. Zero equals negative
zero, and what is not a number equals nothing. -/
def sameNumbers (a b : Vec3) : Bool :=
  a.x == b.x && a.y == b.y && a.z == b.z

/-- Whether all three numbers are finite. -/
def isFinite (v : Vec3) : Bool :=
  v.x.isFinite && v.y.isFinite && v.z.isFinite

end Vec3

end FieldMesh
