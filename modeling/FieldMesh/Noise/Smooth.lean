import FieldMesh.Noise.Lattice

/-!
# Value and gradient noise

Two kinds of noise that blend the eight corners of a cell with the same
smooth weights.

* `value`: every corner has a value;
* `gradient`: every corner has a slope through zero.
-/

namespace FieldMesh.Noise

/-- Holds a number between bounds. -/
def clamp (x low high : Float) : Float :=
  if x < low then low else if high < x then high else x

/-- The weight of a fraction of a cell, flat up to the second derivative at
either end. -/
def weight (t : Float) : Float :=
  let t := clamp t 0.0 1.0
  t * t * t * (t * (t * 6.0 - 15.0) + 10.0)

/-- Goes from `a` to `b` with a weight. -/
def blend (a b w : Float) : Float := b * w + a * (1.0 - w)

/-- The corner of a cell at an offset. -/
def corner (cell : Node) (i j k : Int64) : Node := cell + ⟨i, j, k⟩

/-- Noise from -1 to 1 that blends a value per lattice point. -/
def value (p : Place) : Option Float := do
  let cell ← cellOf? p
  let w := (p - cell.place).map weight
  let node (i j k : Int64) : Float := (hash (corner cell i j k)).toFloat / 255.0
  let alongX (j k : Int64) : Float := blend (node 0 j k) (node 1 j k) w.x
  let alongY (k : Int64) : Float := blend (alongX 0 k) (alongX 1 k) w.y
  return blend (alongY 0) (alongY 1) w.z * 2.0 - 1.0

/-- The slope of a lattice point along an offset from it: one of twelve
directions to the edges of a cube. -/
def slope (n : Node) (e : Place) : Float :=
  match (hash n).toNat % 16 with
  | 0 | 12 => e.x + e.y
  | 1 | 13 => -e.x + e.y
  | 2 => e.x - e.y
  | 3 => -e.x - e.y
  | 4 => e.x + e.z
  | 5 => -e.x + e.z
  | 6 => e.x - e.z
  | 7 => -e.x - e.z
  | 8 => e.y + e.z
  | 9 | 14 => -e.y + e.z
  | 10 => e.y - e.z
  | _ => -e.y - e.z

/-- Noise from -1 to 1 that blends a slope per lattice point. -/
def gradient (p : Place) : Option Float := do
  let cell ← cellOf? p
  let d := p - cell.place
  let w := d.map weight
  let node (i j k : Int64) : Float :=
    slope (corner cell i j k) (d - (Node.mk i j k).place)
  let alongZ (i j : Int64) : Float := blend (node i j 0) (node i j 1) w.z
  let alongY (i : Int64) : Float := blend (alongZ i 0) (alongZ i 1) w.y
  return clamp (blend (alongY 0) (alongY 1) w.x * 1.1547005383792515) (-1.0) 1.0

end FieldMesh.Noise
