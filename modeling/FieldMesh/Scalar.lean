import FieldMesh.Binary32

/-!
# Scalar functions

Functions on single-precision numbers beyond the four operations.
-/

namespace FieldMesh.Scalar

/-! ## Analysis -/

/-- The sine. -/
def sin : Float32 → Float32 := Float32.sin

/-- The cosine. -/
def cos : Float32 → Float32 := Float32.cos

/-- The tangent, computed in double precision and rounded once. -/
def tan (x : Float32) : Float32 := x.toFloat.tan.toFloat32

/-- The power of two. -/
def exp2 : Float32 → Float32 := Float32.exp2

/-- The power of a base. -/
def pow : Float32 → Float32 → Float32 := Float32.pow

/-! ## Order -/

/-- The smaller of two numbers. What is not a number gives way to the
other. -/
def least (a b : Float32) : Float32 :=
  if a.isNaN then b else if b < a then b else a

/-- The greater of two numbers. What is not a number gives way to the
other. -/
def greatest (a b : Float32) : Float32 :=
  if a.isNaN then b else if a < b then b else a

end FieldMesh.Scalar
