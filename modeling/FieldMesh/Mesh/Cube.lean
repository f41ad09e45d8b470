import FieldMesh.Mesh.Lattice

/-!
# Cubes

The eight corners and twelve edges of a cell, and which of them a surface
separates. The upper four corners lie above the lower four, y upwards.

* `Corner.offset`: where a corner lies;
* `Edge.ends` and `Edge.direction`: what an edge joins;
* `caseOf`: the case of a cell, a bit for each corner that is below the
  level;
* `Edge.crosses`: whether an edge joins corners on different sides;
* `Quad`: four corners in turn, and the quads around the far corner.
-/

namespace FieldMesh.Mesh

/-! ## Bits -/

/-- The number with the given bits, the lowest first. -/
def binary : List Bool → Nat
  | [] => 0
  | b :: rest => b.toNat + 2 * binary rest

theorem binary_lt (bits : List Bool) : binary bits < 1 <<< bits.length := by
  induction bits with
  | nil => simp [binary]
  | cons b rest ih =>
    have := b.toNat_lt
    simp only [binary, List.length_cons]
    omega

theorem testBit_binary (bits : List Bool) (i : Nat) :
    (binary bits).testBit i = bits.getD i false := by
  induction bits generalizing i with
  | nil => simp [binary]
  | cons b rest ih =>
    cases i with
    | zero =>
      have odd : (b.toNat + 2 * binary rest) % 2 = b.toNat := by
        have := b.toNat_lt
        omega
      rw [binary, Nat.testBit_zero, odd, List.getD_cons_zero]
      cases b <;> rfl
    | succ i =>
      rw [Nat.testBit_succ, List.getD_cons_succ, ← ih]
      congr 1
      have := b.toNat_lt
      simp only [binary]
      omega

/-! ## Corners -/

/-- A corner of a cell. -/
abbrev Corner := Fin 8

/-- The way from the least corner of a cell to another one. -/
def Corner.offset (c : Corner) : Point :=
  (#v[⟨0, 0, 0⟩, ⟨1, 0, 0⟩, ⟨1, 0, 1⟩, ⟨0, 0, 1⟩,
    ⟨0, 1, 0⟩, ⟨1, 1, 0⟩, ⟨1, 1, 1⟩, ⟨0, 1, 1⟩] : Vector Point 8)[c]

/-- The densities at the corners of a cell. -/
abbrev Corners := Vector Float32 8

/-- The case of a cell: bit `c` is set if corner `c` is below the level. -/
def caseOf (corners : Corners) (level : Float32) : Nat :=
  binary (corners.toList.map (· < level))

/-! ## Edges -/

/-- An edge of a cell. -/
abbrev Edge := Fin 12

/-- The corners that an edge joins. -/
def Edge.ends (e : Edge) : Corner × Corner :=
  (#v[(0, 1), (1, 2), (2, 3), (3, 0), (4, 5), (5, 6), (6, 7), (7, 4),
    (0, 4), (1, 5), (2, 6), (3, 7)] : Vector (Corner × Corner) 12)[e]

/-- The way from the first corner of an edge to the second. -/
def Edge.direction (e : Edge) : Point := e.ends.2.offset - e.ends.1.offset

/-- All edges in order. -/
def edges : List Edge := List.finRange 12

/-- Whether a case has the ends of an edge on different sides. -/
def Edge.crosses (case : Nat) (e : Edge) : Bool :=
  case.testBit e.ends.1 != case.testBit e.ends.2

/-! ## Quads -/

/-- The corners of a cell that own the vertices of a quad, in turn. -/
structure Quad where
  a : Corner
  b : Corner
  c : Corner
  d : Corner
  deriving DecidableEq, Repr

/-- Across the edge along z at the far corner. -/
def Quad.acrossZ : Quad := ⟨0, 1, 5, 4⟩

/-- Across the edge along y at the far corner. -/
def Quad.acrossY : Quad := ⟨0, 3, 2, 1⟩

/-- Across the edge along x at the far corner. -/
def Quad.acrossX : Quad := ⟨0, 4, 7, 3⟩

/-- The other ends of the far corner's edges along z, y and x, then the far
corner itself. -/
def farCorners : List Corner := [5, 2, 7, 6]

end FieldMesh.Mesh
