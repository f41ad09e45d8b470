import Mathlib.Data.Set.Function
import FieldMesh.Proofs.Mesh.Generation

/-!
# Places of a store

Stored points and places of a store name each other, also as machines compute
with them: in words that hold only so many numbers.

* `WordKind.hold`: a number in a word, if it fits;
* `Lattice.wordIndex`, `Lattice.wordPoint`: places and points, with every
  intermediate result in the word that holds it;
* `Lattice.InWords`: no operation overflows and no conversion changes a number;
  it holds of every lattice whose sizes fit (`inWords_of_checkSize`);
* **main result**: `index_bijOn`.
-/

namespace FieldMesh.Mesh

/-! ## Words -/

/-- A kind of machine words, by the least and the greatest number they hold. -/
structure WordKind where
  least : Int
  most : Int

namespace WordKind

/-- Signed words of 32 bits: coordinates. -/
def signed : WordKind := ⟨-2147483648, 2147483647⟩

/-- Unsigned words of 32 bits: cells and points along an axis. -/
def unsigned : WordKind := ⟨0, 4294967295⟩

/-- Unsigned words of 64 bits: places of a store. -/
def size : WordKind := ⟨0, 18446744073709551615⟩

/-- Puts a number into a word. Where it does not fit, an operation would
overflow or a conversion would change the number. -/
def hold (kind : WordKind) (i : Int) : Option Int :=
  if kind.least ≤ i ∧ i ≤ kind.most then some i else none

variable {i : Int}

theorem hold_signed (low : -2147483648 ≤ i) (high : i ≤ 2147483647) :
    signed.hold i = some i := if_pos ⟨low, high⟩

theorem hold_unsigned (low : 0 ≤ i) (high : i ≤ 4294967295) :
    unsigned.hold i = some i := if_pos ⟨low, high⟩

theorem hold_size {n : Nat} (below : n < 2 ^ 64) : size.hold n = some (n : Int) :=
  if_pos ⟨Int.natCast_nonneg n, Int.ofNat_le.mpr (Nat.le_of_lt_succ below)⟩

end WordKind

/-! ## Lattices in words -/

namespace Lattice

open WordKind

/-- The points along every axis. -/
def wordSide (l : Lattice) : Option Int := do
  let cells ← unsigned.hold l.cells
  let points ← unsigned.hold (cells + 1)
  let border ← unsigned.hold l.border
  let extra ← unsigned.hold (border * 2)
  let side ← unsigned.hold (points + extra)
  size.hold side

/-- The stored points. -/
def wordVolume (l : Lattice) : Option Int := do
  let side ← l.wordSide
  let area ← size.hold (side * side)
  size.hold (area * side)

/-- The least and the greatest coordinate. -/
def wordBounds (l : Lattice) : Option (Int × Int) := do
  let border ← signed.hold l.border
  let least ← signed.hold (-border)
  let cells ← signed.hold l.cells
  let most ← signed.hold (cells + border)
  return (least, most)

/-- Whether a point is stored. -/
def wordContains (l : Lattice) (p : Point) : Option Bool := do
  let (least, most) ← l.wordBounds
  return decide ((least ≤ p.x ∧ least ≤ p.y ∧ least ≤ p.z) ∧
    p.x ≤ most ∧ p.y ≤ most ∧ p.z ≤ most)

/-- The place of a coordinate along its axis. -/
def wordPlace (l : Lattice) (i : Int) : Option Int := do
  let border ← signed.hold l.border
  let shifted ← signed.hold (i + border)
  let positive ← unsigned.hold shifted
  size.hold positive

/-- Where a point is stored, which has to be in the lattice. -/
def wordIndex (l : Lattice) (p : Point) : Option Int := do
  guard (← l.wordContains p)
  let side ← l.wordSide
  let x ← l.wordPlace p.x
  let y ← l.wordPlace p.y
  let z ← l.wordPlace p.z
  let row ← size.hold (z * side)
  let near ← size.hold (x + row)
  let layers ← size.hold (y * side)
  let layer ← size.hold (layers * side)
  size.hold (near + layer)

/-- The coordinate at a place of its axis. -/
def wordCoordinate (l : Lattice) (k : Int) : Option Int := do
  let border ← signed.hold l.border
  let place ← signed.hold k
  signed.hold (place - border)

/-- The point that is stored at an index. -/
def wordPoint (l : Lattice) (index : Int) : Option Point := do
  let side ← l.wordSide
  let x ← l.wordCoordinate (index % side)
  let z ← l.wordCoordinate (index / side % side)
  let area ← size.hold (side * side)
  let y ← l.wordCoordinate (index / area)
  return ⟨x, y, z⟩

/-- The numbers from one to another. -/
def numbersFrom (least most : Int) : List Int :=
  (List.range (most + 1 - least).toNat).map fun k : Nat => least + k

/-- Tries whether an index belongs to a stored point that leads back to it. -/
def tryIndex (l : Lattice) (i : Int) : Option Unit := do
  let p ← l.wordPoint i
  guard (← l.wordContains p)
  guard ((← l.wordIndex p) = i)

/-- Tries whether a point is found again at its index. -/
def tryPoint (l : Lattice) (p : Point) : Option Unit := do
  let i ← l.wordIndex p
  guard ((← l.wordPoint i) = p)

/-- Tries every index and every point of a lattice. -/
def tryAll (l : Lattice) : Option Unit := do
  let volume ← l.wordVolume
  (numbersFrom 0 (volume - 1)).forM l.tryIndex
  let (least, most) ← l.wordBounds
  let coordinates := numbersFrom least most
  coordinates.forM fun y => coordinates.forM fun z => coordinates.forM fun x =>
    l.tryPoint ⟨x, y, z⟩

/-- In words everything about a lattice is what it is without them: no
operation overflows, and no conversion changes a number. -/
structure InWords (l : Lattice) : Prop where
  side : l.wordSide = some (l.side : Int)
  volume : l.wordVolume = some (l.volume : Int)
  bounds : l.wordBounds = some (-(l.border : Int), (l.cells : Int) + l.border)
  contains : ∀ p, l.wordContains p = some (decide (l.Contains p))
  index : ∀ p, l.Contains p → l.wordIndex p = some (l.index p : Int)
  point : ∀ i < l.volume, l.wordPoint i = some (l.point i)

/-! ## Sizes that fit -/

/-- A lattice whose sizes fit has few points along an axis. -/
theorem side_lt_of_checkSize {l : Lattice} (sized : l.checkSize = .ok ()) :
    l.side < 2 ^ 22 ∧ l.volume < 2 ^ 64 := by
  unfold checkSize at sized
  split at sized
  · cases sized
  split at sized
  · cases sized
  next few =>
    have few : l.volume < 2 ^ 64 := Nat.lt_of_not_le few
    refine ⟨?_, few⟩
    by_contra many
    have wide : 2 ^ 22 ≤ l.side := Nat.le_of_not_lt many
    have large : 2 ^ 22 * 2 ^ 22 * 2 ^ 22 ≤ l.volume :=
      Nat.mul_le_mul (Nat.mul_le_mul wide wide) wide
    omega

/-- The sizes of every region that can be asked for fit, with a border or
without. -/
theorem checkSize_of_validate {r : Request} (valid : r.validate = .ok ())
    (padding : Padding) : checkSize ⟨r.cells.toNat, padding⟩ = .ok () := by
  have sized {r : Request} (few : r.cells.toNat ≤ maxCells) :
      r.lattice.checkSize = .ok () := by
    have stored := checkStorage_of_cells few
    unfold checkStorage at stored
    cases sized : r.lattice.checkSize with
    | ok _ => rfl
    | error e =>
      rw [sized] at stored
      cases stored
  have few := (cells_of_validate valid).2
  cases padding with
  | none => exact sized (r := { r with algorithm := .marchingCubes }) few
  | gradient => exact sized (r := { r with algorithm := .dualContouring }) few

theorem hold_area {l : Lattice} (few : l.volume < 2 ^ 64) :
    size.hold (l.side * l.side) = some ((l.side * l.side : Nat) : Int) := by
  have area : l.side * l.side ≤ l.volume := Nat.le_mul_of_pos_right _ l.side_pos
  rw [← Int.natCast_mul, hold_size (area.trans_lt few)]

/-! ## Words hold everything -/

theorem mem_numbersFrom {least most i : Int} :
    i ∈ numbersFrom least most ↔ least ≤ i ∧ i ≤ most := by
  simp only [numbersFrom, List.mem_map, List.mem_range]
  constructor
  · rintro ⟨k, below, rfl⟩
    omega
  · rintro ⟨low, high⟩
    exact ⟨(i - least).toNat, by omega, by omega⟩

section

variable {l : Lattice} (narrow : l.side < 2 ^ 22)

include narrow

theorem border_lt : l.border < 2 ^ 22 := by
  unfold side at narrow
  omega

theorem wordSide_eq : l.wordSide = some (l.side : Int) := by
  have whole : (l.cells + 1 + l.border * 2 : Int) = l.side := by
    unfold side
    omega
  simp only [wordSide, Option.bind_eq_bind]
  rw [hold_unsigned (by omega) (by omega), Option.bind_some,
    hold_unsigned (by omega) (by omega), Option.bind_some,
    hold_unsigned (by omega) (by omega), Option.bind_some,
    hold_unsigned (by omega) (by omega), Option.bind_some, whole,
    hold_unsigned (by omega) (by omega), Option.bind_some, hold_size (by omega)]

theorem wordBounds_eq :
    l.wordBounds = some (-(l.border : Int), (l.cells : Int) + l.border) := by
  unfold side at narrow
  simp (disch := omega) only [wordBounds, hold_signed, Option.bind_eq_bind,
    Option.bind_some]
  rfl

theorem wordContains_eq (p : Point) : l.wordContains p = some (decide (l.Contains p)) := by
  simp only [wordContains, wordBounds_eq narrow, Option.bind_eq_bind, Option.bind_some]
  refine congrArg some (decide_eq_decide.mpr ?_)
  unfold Contains Within
  omega

theorem wordPlace_eq {i : Int} (within : l.Within i) :
    l.wordPlace i = some (l.place i : Int) := by
  have shifted : i + l.border = l.place i := by
    unfold Within at within
    unfold place
    omega
  have border := border_lt narrow
  have below := place_lt within
  simp only [wordPlace, Option.bind_eq_bind]
  rw [hold_signed (by omega) (by omega), Option.bind_some, shifted,
    hold_signed (by omega) (by omega), Option.bind_some,
    hold_unsigned (by omega) (by omega), Option.bind_some, hold_size (by omega)]

theorem wordCoordinate_eq {k : Nat} (below : k < l.side) :
    l.wordCoordinate k = some (l.coordinate k) := by
  have border := border_lt narrow
  simp (disch := omega) only [wordCoordinate, hold_signed, Option.bind_eq_bind,
    Option.bind_some, coordinate]

variable (few : l.volume < 2 ^ 64)

include few

theorem wordVolume_eq : l.wordVolume = some (l.volume : Int) := by
  simp only [wordVolume, wordSide_eq narrow, hold_area few, Option.bind_eq_bind,
    Option.bind_some]
  rw [← Int.natCast_mul]
  exact hold_size few

theorem wordIndex_eq {p : Point} (stored : l.Contains p) :
    l.wordIndex p = some (l.index p : Int) := by
  have below := (index_lt_volume stored).trans few
  have sum : l.place p.x + l.place p.z * l.side + l.place p.y * l.side * l.side =
      l.index p := by
    unfold index
    ring
  have layer : l.place p.y * l.side ≤ l.place p.y * l.side * l.side :=
    Nat.le_mul_of_pos_right _ l.side_pos
  simp only [wordIndex, wordContains_eq narrow, wordSide_eq narrow,
    wordPlace_eq narrow stored.1, wordPlace_eq narrow stored.2.1,
    wordPlace_eq narrow stored.2.2, Option.bind_eq_bind, Option.bind_some,
    decide_eq_true stored, guard_true, Option.pure_def, ← Int.natCast_mul]
  rw [hold_size (by omega), Option.bind_some, ← Int.natCast_add,
    hold_size (by omega), Option.bind_some, hold_size (by omega), Option.bind_some,
    ← Int.natCast_mul, hold_size (by omega), Option.bind_some, ← Int.natCast_add,
    hold_size (by omega), sum]

theorem wordPoint_eq {i : Nat} (below : i < l.volume) :
    l.wordPoint i = some (l.point i) := by
  have positive := l.side_pos
  have x : i % l.side < l.side := Nat.mod_lt _ positive
  have z : i / l.side % l.side < l.side := Nat.mod_lt _ positive
  have y : i / (l.side * l.side) < l.side := Nat.div_lt_of_lt_mul below
  simp only [wordPoint, wordSide_eq narrow, hold_area few, Option.bind_eq_bind,
    Option.bind_some, ← Int.natCast_ediv, ← Int.natCast_emod,
    wordCoordinate_eq narrow x, wordCoordinate_eq narrow y, wordCoordinate_eq narrow z]
  rw [point, Nat.div_div_eq_div_mul]
  rfl

end

/-- No operation on a lattice whose sizes fit overflows, and no conversion
changes a number. -/
theorem inWords_of_checkSize {l : Lattice} (sized : l.checkSize = .ok ()) :
    l.InWords := by
  obtain ⟨narrow, few⟩ := side_lt_of_checkSize sized
  exact {
    side := wordSide_eq narrow
    volume := wordVolume_eq narrow few
    bounds := wordBounds_eq narrow
    contains := wordContains_eq narrow
    index := fun _ => wordIndex_eq narrow few
    point := fun _ => wordPoint_eq narrow few }

/-! ## Trying a whole lattice -/

theorem forM_eq_some {xs : List α} {check : α → Option Unit}
    (passes : ∀ x ∈ xs, check x = some ()) : xs.forM check = some () := by
  induction xs with
  | nil => rfl
  | cons x rest ih =>
    have others := ih fun y member => passes y (List.mem_cons_of_mem x member)
    show (check x).bind (fun _ => rest.forM check) = some ()
    rw [passes x List.mem_cons_self, Option.bind_some, others]

/-- Every index and every point is found again. -/
theorem roundTrips_eq_true (l : Lattice) : l.roundTrips = true := by
  have within : ∀ i ∈ l.coordinates, l.Within i := by
    intro i member
    obtain ⟨k, below, rfl⟩ := List.mem_map.mp member
    exact within_coordinate (List.mem_range.mp below)
  simp only [roundTrips, Bool.and_eq_true, List.all_eq_true, List.mem_range,
    decide_eq_true_eq, beq_iff_eq]
  refine ⟨fun i below => ⟨contains_point below, l.index_point i⟩, ?_⟩
  intro y memberY z memberZ x memberX
  exact point_index ⟨within x memberX, within y memberY, within z memberZ⟩

namespace InWords

variable {l : Lattice} (inWords : l.InWords)

include inWords

theorem tryIndex {i : Nat} (below : i < l.volume) : l.tryIndex i = some () := by
  have stored := contains_point below
  simp [Lattice.tryIndex, inWords.point i below, inWords.contains,
    inWords.index _ stored, stored, l.index_point]

theorem tryPoint {p : Point} (stored : l.Contains p) : l.tryPoint p = some () := by
  simp [Lattice.tryPoint, inWords.index p stored,
    inWords.point _ (index_lt_volume stored), point_index stored]

/-- Trying a whole lattice never fails. -/
theorem tryAll : l.tryAll = some () := by
  simp only [Lattice.tryAll, inWords.volume, inWords.bounds, Option.bind_eq_bind,
    Option.bind_some]
  rw [forM_eq_some, Option.bind_some]
  · refine forM_eq_some fun y memberY => forM_eq_some fun z memberZ =>
      forM_eq_some fun x memberX => inWords.tryPoint ?_
    exact ⟨mem_numbersFrom.mp memberX, mem_numbersFrom.mp memberY,
      mem_numbersFrom.mp memberZ⟩
  · intro i member
    obtain ⟨low, high⟩ := mem_numbersFrom.mp member
    obtain ⟨k, rfl⟩ := Int.eq_ofNat_of_zero_le low
    exact inWords.tryIndex (by omega)

end InWords

end Lattice

/-! ## Main result -/

/-- **Places of a store.** For every lattice whose sizes fit the machine, and so
for every region that can be asked for, points and places name each other:
every stored point has a place of its own, every place below the volume has a
stored point, and each leads back to the other. In words no operation on the
way overflows and no conversion changes a number, so that trying the whole
lattice never fails. -/
theorem index_bijOn :
    (∀ r : Request, r.validate = .ok () → ∀ padding,
      Lattice.checkSize ⟨r.cells.toNat, padding⟩ = .ok ()) ∧
    ∀ l : Lattice, l.checkSize = .ok () →
      Set.BijOn l.index {p | l.Contains p} (Set.Iio l.volume) ∧
      Set.BijOn l.point (Set.Iio l.volume) {p | l.Contains p} ∧
      Set.InvOn l.point l.index {p | l.Contains p} (Set.Iio l.volume) ∧
      l.InWords ∧ l.roundTrips = true ∧ l.tryAll = some () := by
  refine ⟨fun r valid => Lattice.checkSize_of_validate valid, fun l sized => ?_⟩
  have inverse : Set.InvOn l.point l.index {p | l.Contains p} (Set.Iio l.volume) :=
    ⟨fun p stored => Lattice.point_index stored, fun i _ => l.index_point i⟩
  have into : Set.MapsTo l.index {p | l.Contains p} (Set.Iio l.volume) :=
    fun p stored => Lattice.index_lt_volume stored
  have back : Set.MapsTo l.point (Set.Iio l.volume) {p | l.Contains p} :=
    fun i below => Lattice.contains_point below
  have inWords := Lattice.inWords_of_checkSize sized
  exact ⟨inverse.bijOn into back, inverse.symm.bijOn back into, inverse, inWords,
    l.roundTrips_eq_true, inWords.tryAll⟩

theorem index_bijOn_threeCells :
    let l : Lattice := ⟨3, .gradient⟩
    let largest : Request := { cells := 256 }
    largest.validate = .ok () ∧ Lattice.checkSize ⟨256, .gradient⟩ = .ok () ∧
      l.checkSize = .ok () ∧ Set.BijOn l.index {p | l.Contains p} (Set.Iio 216) ∧
      l.wordIndex ⟨0, 0, 0⟩ = some 43 ∧ l.tryAll = some () := by
  intro l largest
  have valid : largest.validate = .ok () := by decide
  have sized : l.checkSize = .ok () := by decide
  have origin : l.Contains ⟨0, 0, 0⟩ := by decide
  obtain ⟨paired, -, -, inWords, -, tried⟩ := index_bijOn.2 l sized
  exact ⟨valid, index_bijOn.1 largest valid .gradient, sized, paired,
    inWords.index _ origin, tried⟩

end FieldMesh.Mesh
