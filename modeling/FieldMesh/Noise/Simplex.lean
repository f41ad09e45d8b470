import FieldMesh.Noise.Lattice

/-!
# Simplex noise

Space is cut into simplices by skewing the lattice. A place gets a
contribution from each of the four corners of its simplex, which fades out
with the distance.
-/

namespace FieldMesh.Noise

/-- How far the lattice is skewed. -/
def skew : Float := (Float.sqrt 4.0 - 1.0) / 3.0

/-- How far the lattice is skewed back. -/
def unskew : Float := (1.0 - 1.0 / Float.sqrt 4.0) / 3.0

/-- The offsets of the second and third corner of the simplex, by the order
of the coordinates within the cell. -/
def simplexPath (d : Place) : Node × Node :=
  if d.y ≤ d.x then
    if d.z ≤ d.y then (⟨1, 0, 0⟩, ⟨1, 1, 0⟩)
    else if d.z ≤ d.x then (⟨1, 0, 0⟩, ⟨1, 0, 1⟩)
    else (⟨0, 0, 1⟩, ⟨1, 0, 1⟩)
  else if d.y < d.z then (⟨0, 0, 1⟩, ⟨0, 1, 1⟩)
  else if d.x < d.z then (⟨0, 1, 0⟩, ⟨0, 1, 1⟩)
  else (⟨0, 1, 0⟩, ⟨1, 1, 0⟩)

/-- The direction that belongs to a lattice point: to an edge of a cube for
24 of 32 bytes, to a corner for the others. -/
def direction (n : Node) : Place :=
  let a := 0.7071067811865476
  let b := 0.5773502691896258
  let byte := (hash n).toNat % 32
  if byte < 24 then
    match byte % 12 with
    | 0 => ⟨a, a, 0.0⟩
    | 1 => ⟨-a, a, 0.0⟩
    | 2 => ⟨a, -a, 0.0⟩
    | 3 => ⟨-a, -a, 0.0⟩
    | 4 => ⟨a, 0.0, a⟩
    | 5 => ⟨-a, 0.0, a⟩
    | 6 => ⟨a, 0.0, -a⟩
    | 7 => ⟨-a, 0.0, -a⟩
    | 8 => ⟨0.0, a, a⟩
    | 9 => ⟨0.0, -a, a⟩
    | 10 => ⟨0.0, a, -a⟩
    | _ => ⟨0.0, -a, -a⟩
  else
    let bits := byte - 24
    ⟨if bits % 2 = 1 then -b else b,
      if bits / 2 % 2 = 1 then -b else b,
      if bits / 4 % 2 = 1 then -b else b⟩

/-- What a corner adds at an offset from it. -/
def contribution (n : Node) (d : Place) : Float :=
  let t := 1.0 - d.dot d * 2.0
  if t > 0.0 then
    let t2 := t * t
    let t4 := t2 * t2
    (2.0 * t2 + t4) * d.dot (direction n)
  else 0.0

/-- Noise from -1 to 1 over simplices. -/
def simplex (p : Place) : Option Float := do
  let s := (p.x + p.y + p.z) * skew
  let cell ← cellOf? (p + .splat s)
  let c := cell.place
  let u := (c.x + c.y + c.z) * unskew
  let d1 := p - (c - .splat u)
  let (second, third) := simplexPath d1
  let d2 := d1 - second.place + .splat unskew
  let d3 := d1 - third.place + .splat (2.0 * unskew)
  let d4 := d1 - .splat 1.0 + .splat (3.0 * unskew)
  return contribution cell d1 + contribution (cell + second) d2 +
    contribution (cell + third) d3 + contribution (cell + ⟨1, 1, 1⟩) d4

end FieldMesh.Noise
