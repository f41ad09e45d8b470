import FieldMesh.Noise.Simplex
import FieldMesh.Noise.Smooth
import FieldMesh.Vector

/-!
# Noise over vectors

The noise functions that formulas can call. They take single-precision
vectors, compute in double precision and round the result. There is none
(`none`) where a coordinate is not a number or does not fit the lattice.

* `valueAt`, `gradientAt`, `simplexAt`: one number per place;
* `fractal`: octaves of simplex noise on top of each other;
* `rotating`: noise over a plane whose slopes turn, with its derivatives.
-/

namespace FieldMesh.Noise

/-- A vector in double precision. -/
def Place.ofVector (v : Vec3) : Place :=
  ⟨v.x.toFloat, v.y.toFloat, v.z.toFloat⟩

/-- Value noise at a vector. -/
def valueAt (v : Vec3) : Option Float32 :=
  (value (.ofVector v)).map Float.toFloat32

/-- Gradient noise at a vector. -/
def gradientAt (v : Vec3) : Option Float32 :=
  (gradient (.ofVector v)).map Float.toFloat32

/-- Simplex noise at a vector. -/
def simplexAt (v : Vec3) : Option Float32 :=
  (simplex (.ofVector v)).map Float.toFloat32

/-! ## Octaves -/

/-- The most octaves that are added up. -/
def maxOctaves : Int := 16

/-- Adds octaves to a total. Every octave has its frequency multiplied by
`lacunarity` and its amplitude by `gain`. -/
def addOctaves (v : Vec3) (gain lacunarity : Float32) :
    Nat → (frequency amplitude total : Float32) → Option Float32
  | 0, _, _, total => some total
  | octaves + 1, frequency, amplitude, total => do
    let octave ← simplexAt (v.scale frequency)
    addOctaves v gain lacunarity octaves (frequency * lacunarity)
      (amplitude * gain) (total + amplitude * octave)

/-- Octaves of simplex noise. The amplitude starts at one and falls by the
power of two of `-persistence`. -/
def fractal (v : Vec3) (persistence : Float32) (octaves : Int)
    (lacunarity : Float32) : Option Float32 :=
  addOctaves v (Scalar.exp2 (-persistence)) lacunarity
    (min octaves maxOctaves).toNat 1.0 1.0 0.0

/-! ## Rotating slopes -/

/-- The remainder by 289. -/
def wrap289 (x : Float32) : Float32 :=
  x - (x * (1.0 / 289.0)).floor * 289.0

/-- Permutes the whole numbers below 289. -/
def permute289 (x : Float32) : Float32 :=
  wrap289 ((34.0 * x + 1.0) * x)

/-- What a corner of a triangle adds to the noise and to its derivatives, at
the place (`x`, `y`). -/
def turningSlope (x y rotation cornerX cornerY : Float32) : Vec3 :=
  let dx := x - cornerX
  let dy := y - cornerY
  let falloff := Scalar.greatest (0.8 - (dx * dx + dy * dy)) 0.0
  let byte := permute289 (permute289 (wrap289 (cornerX + 0.5 * cornerY)) +
    wrap289 cornerY)
  let angle := byte * 0.07482 + rotation
  let slopeX := Scalar.cos angle
  let slopeY := Scalar.sin angle
  let along := slopeX * dx + slopeY * dy
  let f2 := falloff * falloff
  let f4 := f2 * f2
  let fade := 8.0 * f2 * falloff * along
  ⟨f4 * along, f4 * slopeX - fade * dx, f4 * slopeY - fade * dy⟩

/-- Noise over the plane of the first two coordinates, whose slopes are
turned by the third, followed by its derivatives in the plane. It is nudged
off the line where the skewed lattice shows seams. -/
def rotating (v : Vec3) : Vec3 :=
  let x := v.x
  let y := v.y + 0.001
  let skewedX := x + y * 0.5
  let cellX := skewedX.floor
  let cellY := y.floor
  let right := skewedX - cellX > y - cellY
  let stepX : Float32 := if right then 1.0 else 0.0
  let stepY : Float32 := if right then 0.0 else 1.0
  let firstX := cellX - cellY * 0.5
  let corners : List (Float32 × Float32) := [
    (firstX, cellY),
    (firstX + stepX - stepY * 0.5, cellY + stepY),
    (firstX + 0.5, cellY + 1.0)]
  let total := corners.foldl
    (fun total c => total + turningSlope x y v.z c.1 c.2) Vec3.zero
  (Vec3.splat 11.0) * total

end FieldMesh.Noise
