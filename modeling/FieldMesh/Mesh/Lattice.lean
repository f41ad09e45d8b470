import FieldMesh.Vector

/-!
# Lattices

A region of `cells` cells along every axis has one lattice point more along
it. Gradients need a further point on every side, so a lattice can have a
border. Points are stored x fastest, then z, then y.

* `Lattice.index` and `Lattice.point`: where a point is stored, and which
  point is stored somewhere;
* `point_index`, `index_point`: they undo each other;
* `walk`: visits the cells of a region.
-/

namespace FieldMesh.Mesh

/-! ## Points -/

/-- A lattice point, counted from the region's least corner. -/
structure Point where
  x : Int
  y : Int
  z : Int
  deriving DecidableEq, Repr

namespace Point

instance : Add Point := ⟨fun p q => ⟨p.x + q.x, p.y + q.y, p.z + q.z⟩⟩
instance : Sub Point := ⟨fun p q => ⟨p.x - q.x, p.y - q.y, p.z - q.z⟩⟩

/-- The vector with the same coordinates. -/
def toVec3 (p : Point) : Vec3 := ⟨.ofInt p.x, .ofInt p.y, .ofInt p.z⟩

/-- The text of a point. -/
def text (p : Point) : String :=
  "[" ++ toString p.x ++ ", " ++ toString p.y ++ ", " ++ toString p.z ++ "]"

end Point

/-! ## Lattices -/

/-- What is stored around the points of a region. -/
inductive Padding where
  /-- Nothing. -/
  | none
  /-- One more point on every side, for differences at the outermost ones. -/
  | gradient
  deriving DecidableEq, Repr

/-- How many more points there are on each side of an axis. -/
def Padding.border : Padding → Nat
  | .none => 0
  | .gradient => 1

/-- The points stored for a region. -/
structure Lattice where
  /-- The cells of the region along every axis. -/
  cells : Nat
  padding : Padding
  deriving DecidableEq, Repr

namespace Lattice

/-- The points more on each side of an axis. -/
def border (l : Lattice) : Nat := l.padding.border

/-- The stored points along every axis. -/
def side (l : Lattice) : Nat := l.cells + 1 + 2 * l.border

/-- The stored points. -/
def volume (l : Lattice) : Nat := l.side * l.side * l.side

theorem side_pos (l : Lattice) : 0 < l.side := by
  unfold side; omega

/-- Whether a coordinate is that of stored points. -/
def Within (l : Lattice) (i : Int) : Prop :=
  -(l.border : Int) ≤ i ∧ i ≤ l.cells + l.border

/-- Whether a point is stored. -/
def Contains (l : Lattice) (p : Point) : Prop :=
  l.Within p.x ∧ l.Within p.y ∧ l.Within p.z

instance (l : Lattice) (i : Int) : Decidable (l.Within i) :=
  inferInstanceAs (Decidable (_ ∧ _))

instance (l : Lattice) (p : Point) : Decidable (l.Contains p) :=
  inferInstanceAs (Decidable (_ ∧ _))

/-! ## Storage order -/

/-- The place of a coordinate along its axis. -/
def place (l : Lattice) (i : Int) : Nat := (i + l.border).toNat

/-- The coordinate at a place of its axis. -/
def coordinate (l : Lattice) (k : Nat) : Int := k - l.border

/-- Where a point is stored. -/
def index (l : Lattice) (p : Point) : Nat :=
  l.place p.x + l.side * (l.place p.z + l.side * l.place p.y)

/-- The point that is stored at an index. -/
def point (l : Lattice) (i : Nat) : Point where
  x := l.coordinate (i % l.side)
  y := l.coordinate (i / l.side / l.side)
  z := l.coordinate (i / l.side % l.side)

theorem place_lt {l : Lattice} {i : Int} (within : l.Within i) :
    l.place i < l.side := by
  unfold Within at within
  unfold place side
  omega

theorem coordinate_place {l : Lattice} {i : Int} (within : l.Within i) :
    l.coordinate (l.place i) = i := by
  unfold Within at within
  unfold coordinate place
  omega

theorem place_coordinate (l : Lattice) (k : Nat) :
    l.place (l.coordinate k) = k := by
  unfold coordinate place
  omega

theorem within_coordinate {l : Lattice} {k : Nat} (below : k < l.side) :
    l.Within (l.coordinate k) := by
  unfold side at below
  unfold Within coordinate
  omega

/-- Digits of a number in mixed radix stay below the product. -/
theorem add_mul_lt {a b n m : Nat} (ha : a < n) (hb : b < m) :
    a + n * b < n * m :=
  calc a + n * b < n + n * b := Nat.add_lt_add_right ha _
    _ = n * (b + 1) := by rw [Nat.mul_succ, Nat.add_comm]
    _ ≤ n * m := Nat.mul_le_mul_left n hb

/-- Stored points have a place in the store. -/
theorem index_lt_volume {l : Lattice} {p : Point} (stored : l.Contains p) :
    l.index p < l.volume := by
  unfold index volume
  rw [Nat.mul_assoc]
  exact add_mul_lt (place_lt stored.1)
    (add_mul_lt (place_lt stored.2.2) (place_lt stored.2.1))

/-- A stored point is found again at its index. -/
theorem point_index {l : Lattice} {p : Point} (stored : l.Contains p) :
    l.point (l.index p) = p := by
  have hx := place_lt stored.1
  have hz := place_lt stored.2.2
  simp only [point, index, Nat.add_mul_mod_self_left, Nat.mod_eq_of_lt hx,
    Nat.add_mul_div_left _ _ l.side_pos, Nat.div_eq_of_lt hx, Nat.zero_add,
    Nat.mod_eq_of_lt hz, Nat.div_eq_of_lt hz,
    coordinate_place stored.1, coordinate_place stored.2.1,
    coordinate_place stored.2.2]

/-- Every index belongs to the point stored there. -/
theorem index_point (l : Lattice) (i : Nat) : l.index (l.point i) = i := by
  simp only [point, index, place_coordinate]
  rw [Nat.mod_add_div, Nat.mod_add_div]

/-- Every place in the store has a stored point. -/
theorem contains_point {l : Lattice} {i : Nat} (below : i < l.volume) :
    l.Contains (l.point i) := by
  unfold volume at below
  refine ⟨within_coordinate (Nat.mod_lt _ l.side_pos), within_coordinate ?_,
    within_coordinate (Nat.mod_lt _ l.side_pos)⟩
  rw [Nat.div_div_eq_div_mul]
  exact Nat.div_lt_of_lt_mul below

/-- The stored points, in the order of the store. -/
def points (l : Lattice) : List Point := (List.range l.volume).map l.point

/-- The coordinates that stored points have on each axis. -/
def coordinates (l : Lattice) : List Int := (List.range l.side).map l.coordinate

/-- Whether points and indices name each other, tried over the whole
lattice. -/
def roundTrips (l : Lattice) : Bool :=
  (List.range l.volume).all (fun i =>
    l.Contains (l.point i) && l.index (l.point i) == i) &&
  l.coordinates.all fun y => l.coordinates.all fun z =>
    l.coordinates.all fun x => l.point (l.index ⟨x, y, z⟩) == ⟨x, y, z⟩

/-! ## Sizes -/

/-- Why a lattice cannot be stored. -/
inductive SizeFault where
  /-- The side does not fit 32 bits. -/
  | side
  /-- The number of points does not fit 64 bits. -/
  | volume
  /-- The points take more bytes than can be addressed. -/
  | storage
  deriving DecidableEq, Repr

/-- Whether the sizes of a lattice fit the machine. -/
def checkSize (l : Lattice) : Except SizeFault Unit :=
  if UInt32.size ≤ l.side then .error .side
  else if UInt64.size ≤ l.volume then .error .volume
  else .ok ()

/-- Whether a number for each point can be stored. -/
def checkStorage (l : Lattice) : Except SizeFault Unit := do
  l.checkSize
  if UInt64.size / 2 ≤ 4 * l.volume then .error .storage

end Lattice

/-! ## Cells -/

/-- Visits the cells of a region by their least corners: x fastest, then z,
then y. -/
def walk {m : Type → Type} [Monad m] (cells : Nat) (visit : α → Point → m α)
    (start : α) : m α :=
  (List.range cells).foldlM (fun state (y : Nat) =>
    (List.range cells).foldlM (fun state (z : Nat) =>
      (List.range cells).foldlM (fun state (x : Nat) =>
        visit state ⟨x, y, z⟩) state) state) start

/-- The cells of a region by their least corners, in the order of a walk. -/
def cellPoints (cells : Nat) : List Point :=
  (List.range cells).flatMap fun (y : Nat) =>
    (List.range cells).flatMap fun (z : Nat) =>
      (List.range cells).map fun (x : Nat) => ⟨x, y, z⟩

/-- A fold over lists of lists is a fold of folds. -/
theorem foldlM_flatMap {m : Type → Type} [Monad m] [LawfulMonad m]
    (f : α → β → m α) (g : γ → List β) (items : List γ) (start : α) :
    (items.flatMap g).foldlM f start =
      items.foldlM (fun state c => (g c).foldlM f state) start := by
  induction items generalizing start with
  | nil => rfl
  | cons c rest ih => simp [List.flatMap_cons, List.foldlM_append, ih]

/-- A walk visits each cell once, in order. -/
theorem walk_eq {m : Type → Type} [Monad m] [LawfulMonad m] (cells : Nat)
    (visit : α → Point → m α) (start : α) :
    walk cells visit start = (cellPoints cells).foldlM visit start := by
  simp [walk, cellPoints, foldlM_flatMap, List.foldlM_map]

end FieldMesh.Mesh
