/-!
# The noise lattice

Noise assigns a byte to every point of the integer lattice and blends what
the corners around a place say. This file has the lattice: the cell of a
place, and the byte of a point.

* `cellOf?`: the cell of a place; there is none where a coordinate is not a
  number or lies beyond 64 bits;
* `hash`: the byte of a lattice point, by three steps through a fixed
  permutation.
-/

namespace FieldMesh.Noise

/-- A place in double precision. -/
structure Place where
  x : Float
  y : Float
  z : Float

/-- A lattice point. -/
structure Node where
  i : Int64
  j : Int64
  k : Int64
  deriving DecidableEq, Repr

namespace Place

/-- Combines two places coordinate by coordinate. -/
def zipWith (f : Float → Float → Float) (a b : Place) : Place :=
  ⟨f a.x b.x, f a.y b.y, f a.z b.z⟩

instance : Add Place := ⟨zipWith (· + ·)⟩
instance : Sub Place := ⟨zipWith (· - ·)⟩

/-- The place with one number in every coordinate. -/
def splat (s : Float) : Place := ⟨s, s, s⟩

/-- The scalar product, summed from zero and from the left. -/
def dot (a b : Place) : Float := 0.0 + a.x * b.x + a.y * b.y + a.z * b.z

/-- Applies a function to every coordinate. -/
def map (f : Float → Float) (p : Place) : Place := ⟨f p.x, f p.y, f p.z⟩

end Place

namespace Node

instance : Add Node := ⟨fun a b => ⟨a.i + b.i, a.j + b.j, a.k + b.k⟩⟩

/-- The place of a lattice point. -/
def place (n : Node) : Place := ⟨n.i.toFloat, n.j.toFloat, n.k.toFloat⟩

end Node

/-! ## Cells -/

/-- The lower end of the unit interval of a coordinate. At and below zero it
lies one below the whole part, so a negative whole number belongs to the
interval that it ends. -/
def lowerEnd? (c : Float) : Option Int64 :=
  if -9223372036854775808.0 ≤ c && c < 9223372036854775808.0 then
    some (if c > 0.0 then c.toInt64 else c.toInt64 - 1)
  else none

/-- The lowest corner of the cell of a place. -/
def cellOf? (p : Place) : Option Node :=
  match lowerEnd? p.x, lowerEnd? p.y, lowerEnd? p.z with
  | some i, some j, some k => some ⟨i, j, k⟩
  | _, _, _ => none

/-! ## Bytes -/

/-- A permutation of the bytes, in rows of sixteen. -/
def permutation : Vector (Vector UInt8 16) 16 := #v[
  #v[181, 206, 3, 127, 58, 121, 169, 47, 62, 123, 5, 142, 99, 140, 178, 171],
  #v[114, 60, 194, 65, 135, 190, 85, 125, 208, 234, 39, 9, 182, 82, 92, 132],
  #v[212, 95, 160, 31, 84, 75, 90, 52, 108, 6, 7, 204, 163, 19, 172, 122],
  #v[168, 63, 205, 111, 224, 166, 21, 59, 203, 88, 116, 104, 68, 13, 26, 170],
  #v[102, 220, 159, 72, 77, 120, 196, 67, 185, 66, 27, 79, 144, 118, 219, 55],
  #v[139, 91, 183, 146, 113, 202, 207, 241, 89, 29, 83, 130, 71, 10, 46, 87],
  #v[152, 211, 106, 145, 201, 51, 109, 232, 81, 134, 186, 78, 74, 137, 124, 115],
  #v[184, 32, 165, 188, 57, 16, 175, 192, 128, 174, 180, 119, 117, 228, 221, 40],
  #v[110, 149, 96, 80, 210, 94, 200, 86, 34, 97, 100, 156, 73, 155, 197, 45],
  #v[42, 44, 153, 191, 214, 173, 126, 187, 24, 223, 30, 38, 193, 199, 101, 225],
  #v[8, 231, 176, 25, 148, 37, 33, 136, 12, 76, 198, 98, 105, 93, 69, 53],
  #v[23, 150, 56, 107, 151, 162, 141, 36, 189, 143, 50, 48, 195, 112, 131, 138],
  #v[147, 209, 226, 215, 227, 61, 222, 218, 177, 103, 167, 129, 64, 35, 239, 154],
  #v[161, 179, 213, 41, 22, 217, 216, 229, 54, 70, 20, 233, 11, 164, 158, 18],
  #v[133, 157, 28, 43, 243, 230, 14, 49, 240, 235, 236, 4, 237, 238, 244, 17],
  #v[1, 242, 2, 15, 245, 246, 247, 248, 249, 250, 251, 252, 253, 254, 255, 0]]

/-- The image of a byte. -/
def permute (n : UInt8) : UInt8 :=
  have row : n.toNat / 16 < 16 := by have := n.toNat_lt; omega
  have column : n.toNat % 16 < 16 := Nat.mod_lt _ (by decide)
  permutation[n.toNat / 16][n.toNat % 16]

/-- The lowest byte of a coordinate. -/
def lowByte (c : Int64) : UInt8 := c.toUInt64.toUInt8

/-- The byte of a lattice point. -/
def hash (n : Node) : UInt8 :=
  permute (permute (permute (lowByte n.i) ^^^ lowByte n.j) ^^^ lowByte n.k)

end FieldMesh.Noise
