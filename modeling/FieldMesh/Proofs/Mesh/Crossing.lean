import FieldMesh.Mesh.MarchingCubes
import FieldMesh.Proofs.Binary32.Numbers
import FieldMesh.Proofs.Decimal.Unsigned

/-!
# Rounding of crossing points

Where an edge crosses the level can be computed from either of its ends. The
two ways are rounded differently.

* `Shares`: two parts of an edge that make up the whole, up to rounding;
* `crossing_shares`: the parts that are computed from its two ends;
* `coordinate`: a coordinate of a crossing point, counted from an end;
* `coordinate_across`: across the edge, it is the same from both ends;
* `coordinate_along`: along the edge, it is the same up to rounding.
-/

namespace FieldMesh.Mesh

open Binary32
open Float.Model (UnpackedFloat)
open Float.Model.UnpackedFloat (Sign)

/-! ## Shares of an edge -/

/-- Two parts of an edge that make up the whole of it, up to rounding. -/
structure Shares (t t' : Float32) : Prop where
  finite : t.isFinite = true
  finite' : t'.isFinite = true
  nonneg : 0 ≤ value t
  nonneg' : 0 ≤ value t'
  le_one : value t ≤ 1
  le_one' : value t' ≤ 1
  whole : |value t + value t' - 1| ≤ 1 / 2 ^ 22

theorem Shares.symm {t t' : Float32} (shares : Shares t t') : Shares t' t where
  finite := shares.finite'
  finite' := shares.finite
  nonneg := shares.nonneg'
  nonneg' := shares.nonneg
  le_one := shares.le_one'
  le_one' := shares.le_one
  whole := by
    rw [add_comm]
    exact shares.whole

theorem value_half : (0.5 : Float32).isFinite = true ∧ value 0.5 = 1 / 2 := by
  have unpacked : (0.5 : Float32).toModel.unpack =
      .finite .positive (2 ^ 23) (-24) (by decide) := rfl
  refine ⟨by decide, ?_⟩
  rw [value, unpacked, valueOf_positive]
  norm_num

/-- Halves make up the whole. -/
theorem shares_half : Shares 0.5 0.5 := by
  obtain ⟨finite, half⟩ := value_half
  refine ⟨finite, finite, ?_, ?_, ?_, ?_, ?_⟩ <;> rw [half] <;> norm_num

/-- A quotient that is a part of an edge. -/
theorem quotient_part {x y : Float32} (finite : x.isFinite = true)
    (finite' : y.isFinite = true) (divisor : value y ≠ 0)
    (nonneg : 0 ≤ value x / value y) (le_one : value x / value y ≤ 1) :
    (x / y).isFinite = true ∧ 0 ≤ value (x / y) ∧ value (x / y) ≤ 1 ∧
      |value (x / y) - value x / value y| ≤
        value x / value y / 2 ^ 24 + 2 ^ (-150 : ℤ) := by
  have rounded := isRounded_div finite finite' divisor
  have magnitude : |value x / value y| = value x / value y := abs_of_nonneg nonneg
  obtain ⟨finiteOne, one⟩ := value_one
  have part : (x / y).isFinite = true := by
    refine rounded.finite_of_small (magnitude.le.trans (le_one.trans ?_))
    norm_num
  refine ⟨part, rounded.nonneg part nonneg, ?_, ?_⟩
  · have bounded := rounded.abs_mono (isRounded_self finiteOne)
      (by rwa [magnitude, one, abs_one]) part finiteOne
    rw [one, abs_one] at bounded
    exact (le_abs_self _).trans bounded
  · have error := rounded.error part
    rwa [magnitude] at error

/-- Quotients of rounded parts by the rounded whole. -/
theorem quotients_near {a b x y z : ℚ} (near : |x - a| ≤ a / 2 ^ 24) (near' : |y - b| ≤ b / 2 ^ 24)
    (whole : |z - (a + b)| ≤ (a + b) / 2 ^ 24) (positive : 0 < z) :
    |x / z + y / z - 1| ≤ 9 / 4 / 2 ^ 24 := by
  obtain ⟨down, up⟩ := abs_le.mp near
  obtain ⟨down', up'⟩ := abs_le.mp near'
  obtain ⟨down'', up''⟩ := abs_le.mp whole
  have together : x / z + y / z - 1 = (x + y - z) / z := by
    rw [← add_div, sub_div, div_self positive.ne']
  rw [together, abs_div, abs_of_pos positive, div_le_iff₀ positive]
  exact abs_le.mpr ⟨by linarith, by linarith⟩

/-- Rounded quotients that nearly make up the whole. -/
theorem quotients_whole {r r' t t' : ℚ} (near : |t - r| ≤ r / 2 ^ 24 + 2 ^ (-150 : ℤ))
    (near' : |t' - r'| ≤ r' / 2 ^ 24 + 2 ^ (-150 : ℤ))
    (whole : |r + r' - 1| ≤ 9 / 4 / 2 ^ 24) : |t + t' - 1| ≤ 1 / 2 ^ 22 := by
  have least : (2 : ℚ) ^ (-150 : ℤ) ≤ 1 / 2 ^ 60 := by norm_num
  obtain ⟨down, up⟩ := abs_le.mp near
  obtain ⟨down', up'⟩ := abs_le.mp near'
  obtain ⟨down'', up''⟩ := abs_le.mp whole
  exact abs_le.mpr ⟨by linarith, by linarith⟩

section

variable {v w level : Float32}

/-- Whether ends have nearly the same density does not depend on their order. -/
theorem apart_comm (finite : v.isFinite = true) (finite' : w.isFinite = true)
    (bounded : (w - v).isFinite = true) :
    (w - v).abs > 0.00001 ↔ (v - w).abs > 0.00001 := by
  obtain ⟨bounded', opposite⟩ := sub_swap finite' finite bounded
  obtain ⟨finiteAbs, abs⟩ := value_abs bounded
  obtain ⟨finiteAbs', abs'⟩ := value_abs bounded'
  have least : (0.00001 : Float32).isFinite = true := by decide
  rw [gt_iff_lt, gt_iff_lt, lt_iff_value_lt least finiteAbs,
    lt_iff_value_lt least finiteAbs', abs, abs', opposite, abs_neg]

/-- Ends of different density differ in value. -/
theorem value_ne_zero_of_apart {x : Float32} (finite : x.isFinite = true)
    (apart : x.abs > 0.00001) : value x ≠ 0 := by
  intro zero
  have positive : (0.0 : Float32) < 0.00001 := by decide
  obtain ⟨finiteAbs, abs⟩ := value_abs finite
  rw [lt_iff_value_lt (by decide) (by decide)] at positive
  rw [gt_iff_lt, lt_iff_value_lt (by decide) finiteAbs, abs, zero, abs_zero] at apart
  have zero : value 0.0 = 0 := rfl
  linarith

/-- The parts from the two ends of an edge on which the density rises. -/
theorem crossing_shares_of_lt (finite : v.isFinite = true) (finite' : w.isFinite = true)
    (finiteLevel : level.isFinite = true) (bounded : (w - v).isFinite = true)
    (below : value v ≤ value level) (above : value level ≤ value w) :
    Shares (crossing v w level) (crossing w v level) := by
  obtain ⟨bounded', opposite⟩ := sub_swap finite' finite bounded
  -- the parts are smaller than the whole, so they are finite too
  obtain ⟨first, nonneg, le⟩ := sub_le finiteLevel finite finite' finite bounded below
    (by linarith)
  obtain ⟨second, nonneg', le'⟩ := sub_le finite' finiteLevel finite' finite bounded above
    (by linarith)
  obtain ⟨swapped, opposite'⟩ := sub_swap finite' finiteLevel second
  unfold crossing
  by_cases apart : (w - v).abs > 0.00001
  swap
  · rw [if_neg apart, if_neg (mt (apart_comm finite finite' bounded).mpr apart)]
    exact shares_half
  rw [if_pos apart, if_pos ((apart_comm finite finite' bounded).mp apart)]
  have nonzero := value_ne_zero_of_apart bounded apart
  have positive : 0 < value (w - v) := lt_of_le_of_ne (nonneg.trans le) nonzero.symm
  have same : value (level - w) / value (v - w) = value (w - level) / value (w - v) := by
    rw [opposite, opposite', neg_div_neg_eq]
  obtain ⟨part, part_nonneg, part_le, part_near⟩ := quotient_part first bounded nonzero
    (div_nonneg nonneg positive.le) ((div_le_one positive).mpr le)
  obtain ⟨part', part_nonneg', part_le', part_near'⟩ :=
    quotient_part swapped bounded' (by rw [opposite]; exact neg_ne_zero.mpr nonzero)
      (by rw [same]; exact div_nonneg nonneg' positive.le)
      (by rw [same]; exact (div_le_one positive).mpr le')
  refine ⟨part, part', part_nonneg, part_nonneg', part_le, part_le', ?_⟩
  rw [same] at part_near'
  have near := sub_error finiteLevel finite first
  have near' := sub_error finite' finiteLevel second
  have near_whole := sub_error finite' finite bounded
  rw [abs_of_nonneg (sub_nonneg.mpr below)] at near
  rw [abs_of_nonneg (sub_nonneg.mpr above)] at near'
  rw [abs_of_nonneg (sub_nonneg.mpr (below.trans above)),
    ← sub_add_sub_cancel' (value level) (value v) (value w)] at near_whole
  exact quotients_whole part_near part_near' (quotients_near near near' near_whole positive)

/-- **Shares of an edge.** If the ends are on different sides of the level, and
their difference is finite, the parts from the two ends make up the whole. -/
theorem crossing_shares (finite : v.isFinite = true) (finite' : w.isFinite = true)
    (finiteLevel : level.isFinite = true) (bounded : (w - v).isFinite = true)
    (differ : ¬ (v < level ↔ w < level)) :
    Shares (crossing v w level) (crossing w v level) := by
  rw [lt_iff_value_lt finite finiteLevel, lt_iff_value_lt finite' finiteLevel] at differ
  by_cases below : value v < value level
  · have above : value level ≤ value w :=
      not_lt.mp fun below' => differ ⟨fun _ => below', fun _ => below⟩
    exact crossing_shares_of_lt finite finite' finiteLevel bounded below.le above
  · have below' : value w < value level := by
      by_contra above
      exact differ ⟨fun first => absurd first below, fun second => absurd second above⟩
    obtain ⟨bounded', -⟩ := sub_swap finite' finite bounded
    exact (crossing_shares_of_lt finite' finite finiteLevel bounded' below'.le
      (not_lt.mp below)).symm

end

/-! ## Coordinates -/

/-- A coordinate of a crossing point, counted from an end of its edge. -/
def coordinate (start way : Int) (t size : Float32) : Float32 :=
  (.ofInt start + .ofInt way * t) * size

section

variable {t t' size : Float32}

/-- Nothing of the way is a zero, of one sign or the other. -/
theorem exists_zero (finite : t.isFinite = true) :
    ∃ s, (Float32.ofInt 0 * t).toModel.unpack = .zero s := by
  have zero : (Float32.ofInt 0).toModel.unpack = .zero .positive := rfl
  have product : (Float32.ofInt 0 * t).toModel.unpack =
      settled (UnpackedFloat.mul .binary32 (.zero .positive) t.toModel.unpack) := rfl
  rcases finite_cases finite with ⟨s, unpacked⟩ | ⟨s, m, e, pos, unpacked⟩
  · rw [product, unpacked]
    exact ⟨_, settled_zero _⟩
  · rw [product, unpacked]
    exact ⟨_, settled_zero _⟩

/-- A number without a sign stays the same when a zero is added, whatever the
sign of that. -/
theorem add_zeros {x y z : Float32} {s s' : Sign}
    (sign : Decimal.signOf x.toModel.unpack = .positive)
    (first : y.toModel.unpack = .zero s) (second : z.toModel.unpack = .zero s') :
    x + y = x + z := by
  have same : UnpackedFloat.add .binary32 x.toModel.unpack (.zero s) =
      UnpackedFloat.add .binary32 x.toModel.unpack (.zero s') := by
    cases unpacked : x.toModel.unpack with
    | notANumber => rfl
    | infinity t => rfl
    | finite t m e some => rfl
    | zero t =>
      rw [unpacked] at sign
      obtain rfl : t = .positive := sign
      cases s <;> cases s' <;> rfl
  show Float32.ofModel (.pack (.add .binary32 x.toModel.unpack y.toModel.unpack)) =
    Float32.ofModel (.pack (.add .binary32 x.toModel.unpack z.toModel.unpack))
  rw [first, second, same]

/-- Across its edge, a crossing point has the coordinate of both ends. -/
theorem coordinate_across {k : Int} (nonneg : 0 ≤ k) (finite : t.isFinite = true)
    (finite' : t'.isFinite = true) (size : Float32) :
    coordinate k 0 t size = coordinate k 0 t' size := by
  obtain ⟨n, rfl⟩ := Int.eq_ofNat_of_zero_le nonneg
  have sign : Decimal.signOf (Float32.ofInt n).toModel.unpack = .positive :=
    (Decimal.plain_ofScientific n false 0).signOf_unpack
  obtain ⟨s, first⟩ := exists_zero finite
  obtain ⟨s', second⟩ := exists_zero finite'
  rw [coordinate, coordinate, add_zeros sign first second]

/-- A step to the next point, up or down, is exact. -/
theorem value_step {way : Int} (unit : way.natAbs = 1) (finite : t.isFinite = true) :
    (Float32.ofInt way * t).isFinite = true ∧
      value (.ofInt way * t) = way * value t := by
  obtain ⟨finiteWay, whole⟩ := value_ofInt (n := way) (by omega)
  have rounded := isRounded_mul finiteWay finite
  have magnitude : |(way : ℚ)| = 1 := by
    rw [← Int.cast_abs, Int.abs_eq_natAbs, unit]
    rfl
  rw [whole] at rounded
  refine rounded.exact_of_abs finite ?_
  rw [abs_mul, magnitude, one_mul]

/-- Counted in cells, a crossing point lies between the ends of its edge. It
is off by a part of its distance. -/
theorem value_place (start way : Int) {last : Nat} (small : last < 2 ^ 23)
    (within : start.natAbs ≤ last) (unit : way.natAbs = 1) (finite : t.isFinite = true)
    (nonneg : 0 ≤ start + way * value t) (le : start + way * value t ≤ last) :
    let place := Float32.ofInt start + .ofInt way * t
    place.isFinite = true ∧ |value place| ≤ last ∧
      |value place - (start + way * value t)| ≤ last / 2 ^ 24 := by
  intro place
  obtain ⟨finiteStart, whole⟩ := value_ofInt (n := start) (by omega)
  obtain ⟨finiteLast, whole'⟩ := value_ofInt (n := last) (by omega)
  obtain ⟨finiteStep, step⟩ := value_step unit finite
  have rounded : IsRounded place _ := isRounded_add finiteStart finiteStep
  have bound := isRounded_self finiteLast
  rw [whole, step] at rounded
  rw [whole', Int.cast_natCast] at bound
  have magnitude : |(start : ℚ) + way * value t| ≤ |(last : ℚ)| :=
    abs_le_abs_of_nonneg nonneg le
  have finitePlace := rounded.finite_of_le bound magnitude finiteLast
  refine ⟨finitePlace, ?_, ?_⟩
  · have bounded := rounded.abs_mono bound magnitude finitePlace finiteLast
    rwa [whole', Int.cast_natCast, Nat.abs_cast] at bounded
  · have error := add_error finiteStart finiteStep finitePlace
    rw [whole, step, abs_of_nonneg nonneg] at error
    exact error.trans (div_le_div_of_nonneg_right le (by positivity))

/-- A coordinate is off by a part of the distance, in cells. -/
theorem value_coordinate {x : Float32} {c r : ℚ} (finite : x.isFinite = true)
    (finiteSize : size.isFinite = true) (nonneg : 0 ≤ value size)
    (near : |value x - r| ≤ c / 2 ^ 24) (le : |value x| ≤ c)
    (bounded : (x * size).isFinite = true) :
    |value (x * size) - r * value size| ≤ c * value size / 2 ^ 23 + 2 ^ (-150 : ℤ) := by
  have error := (isRounded_mul finite finiteSize).error bounded
  rw [abs_mul, abs_of_nonneg nonneg] at error
  have scaled : |value x * value size - r * value size| ≤ c / 2 ^ 24 * value size := by
    rw [← sub_mul, abs_mul, abs_of_nonneg nonneg]
    exact mul_le_mul_of_nonneg_right near nonneg
  have product : |value x| * value size ≤ c * value size :=
    mul_le_mul_of_nonneg_right le nonneg
  calc |value (x * size) - r * value size|
      ≤ |value (x * size) - value x * value size| +
          |value x * value size - r * value size| := abs_sub_le _ _ _
    _ ≤ c * value size / 2 ^ 23 + 2 ^ (-150 : ℤ) := by linarith

/-- Along its edge, a crossing point has the coordinate that is computed from
the other end, up to rounding. -/
theorem coordinate_along {k : Nat} (small : k + 1 < 2 ^ 23) (shares : Shares t t')
    (finiteSize : size.isFinite = true) (nonneg : 0 ≤ value size)
    (bounded : (coordinate k 1 t size).isFinite = true)
    (bounded' : (coordinate (k + 1) (-1) t' size).isFinite = true) :
    |value (coordinate k 1 t size) - value (coordinate (k + 1) (-1) t' size)| ≤
      (k + 2) * value size / 2 ^ 22 + 2 ^ (-149 : ℤ) := by
  have nonneg_k : (0 : ℚ) ≤ k := Nat.cast_nonneg k
  have t_nonneg := shares.nonneg
  have t_nonneg' := shares.nonneg'
  have t_le := shares.le_one
  have t_le' := shares.le_one'
  obtain ⟨finite, le, near⟩ := value_place k 1 small (by omega) rfl
    shares.finite (by push_cast; linarith) (by push_cast; linarith)
  obtain ⟨finite', le', near'⟩ := value_place (k + 1) (-1) small (by omega) rfl
    shares.finite' (by push_cast; linarith) (by push_cast; linarith)
  have upward := value_coordinate finite finiteSize nonneg near le bounded
  have downward := value_coordinate finite' finiteSize nonneg near' le' bounded'
  push_cast at upward downward
  -- the two places differ by what the parts miss of the whole
  have places : |(k + 1 * value t) * value size - (k + 1 + -1 * value t') * value size| ≤
      1 / 2 ^ 22 * value size := by
    have missing : (k : ℚ) + 1 * value t - (k + 1 + -1 * value t') =
        value t + value t' - 1 := by
      ring
    rw [← sub_mul, missing, abs_mul, abs_of_nonneg nonneg]
    exact mul_le_mul_of_nonneg_right shares.whole nonneg
  have halves : (2 : ℚ) ^ (-149 : ℤ) = 2 ^ (-150 : ℤ) + 2 ^ (-150 : ℤ) := by norm_num
  rw [abs_sub_comm] at downward
  have total := (abs_sub_le _ _ _).trans
    (add_le_add upward ((abs_sub_le _ _ _).trans (add_le_add places downward)))
  refine total.trans (le_of_eq ?_)
  rw [halves]
  ring

end

end FieldMesh.Mesh
