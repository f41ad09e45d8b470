import FieldMesh.Proofs.Binary32.Arithmetic

/-!
# Finite numbers

What finite numbers are, and when an operation is exact.

* `exists_bits`, `exists_multiple`: a finite number has 24 bits, and is a
  multiple of `2 ^ -149`;
* `isRounded_self`, `IsRounded.exact_of_abs`: what is a number is not rounded;
* `lt_iff_value_lt`: the order of numbers is that of their values;
* `value_abs`, `value_neg`, `value_ofInt`: exact operations.
-/

namespace FieldMesh.Binary32

open Float.Model (UnpackedFloat)
open Float.Model.UnpackedFloat (Sign)

variable {x y : Float32}

/-! ## Bits -/

/-- A finite number has 24 bits. -/
theorem exists_bits (finite : x.isFinite = true) :
    ∃ k e : ℤ, k.natAbs < 2 ^ 24 ∧ -149 ≤ e ∧ value x = k * 2 ^ e := by
  have stored := canonical x
  rcases finite_cases finite with ⟨s, unpacked⟩ | ⟨s, m, e, pos, unpacked⟩
  · refine ⟨0, 0, by decide, by decide, ?_⟩
    rw [value, unpacked, valueOf_zero]
    simp
  · rw [unpacked] at stored
    refine ⟨s.apply m, e, ?_, stored.least, ?_⟩
    · have magnitude : (s.apply m).natAbs = m := by
        cases s <;> simp [Sign.apply]
      rw [magnitude]
      exact stored.bits
    · rw [value, unpacked, valueOf_finite, cast_apply, Int.cast_natCast, mul_assoc]

/-- A finite number is a multiple of the least one. -/
theorem exists_multiple (finite : x.isFinite = true) :
    ∃ k : ℤ, value x = k * 2 ^ (-149 : ℤ) := by
  obtain ⟨k, e, -, least, same⟩ := exists_bits finite
  obtain ⟨steps, rfl⟩ := Int.le.dest least
  refine ⟨k * 2 ^ steps, ?_⟩
  rw [same, two_zpow_add, zpow_natCast]
  push_cast
  ring

/-! ## Numbers that are not rounded -/

theorem isRounded_self (finite : x.isFinite = true) : IsRounded x (value x) :=
  isRounded_of_canonical (settled_unpack x.toModel.toBits.toBitVec).symm (canonical x) finite

/-- What has the magnitude of a finite number is not rounded. -/
theorem IsRounded.exact_of_abs {r : ℚ} (rounded : IsRounded x r)
    (finite : y.isFinite = true) (same : |r| = |value y|) :
    x.isFinite = true ∧ value x = r := by
  have finite' := rounded.finite_of_le (isRounded_self finite) same.le finite
  refine ⟨finite', ?_⟩
  obtain ⟨k, e, bits, least, parts⟩ := exists_bits finite
  rcases abs_eq_abs.mp same with same | opposite
  · exact rounded.exact finite' bits least (same.trans parts)
  · refine rounded.exact finite' (k := -k) ?_ least ?_
    · rwa [Int.natAbs_neg]
    · rw [opposite, parts]
      push_cast
      ring

/-- Magnitudes up to `2 ^ 127` are finite. -/
theorem IsRounded.finite_of_small {r : ℚ} (rounded : IsRounded x r)
    (small : |r| ≤ 2 ^ (127 : ℤ)) : x.isFinite = true := by
  obtain ⟨_, n, scale, -, rounds, iff, -⟩ := rounded.parts
  have stored : Stored (2 ^ 23) 104 := ⟨by decide, by decide, .inr le_rfl⟩
  have same : (2 : ℚ) ^ (127 : ℤ) = (2 ^ 23 : ℕ) * 2 ^ (104 : ℤ) := by norm_num
  rw [same] at small
  have below : ((2 ^ 23 : ℕ) : ℚ) * 2 ^ (104 : ℤ) < 2 ^ (128 : ℤ) :=
    (stored_lt_iff stored).mpr le_rfl
  exact iff.mpr ((rounds.mono stored.rounds small).trans_lt below)

/-! ## Sums -/

/-- Near zero, sums are exact. So a sum is off by a part only. -/
theorem add_error (finite : x.isFinite = true) (finite' : y.isFinite = true)
    (sum : (x + y).isFinite = true) :
    |value (x + y) - (value x + value y)| ≤ |value x + value y| / 2 ^ 24 := by
  obtain ⟨k, first⟩ := exists_multiple finite
  obtain ⟨l, second⟩ := exists_multiple finite'
  refine (isRounded_add finite finite').error_of_multiple sum (k := k + l) ?_
  rw [first, second]
  push_cast
  ring

theorem sub_error (finite : x.isFinite = true) (finite' : y.isFinite = true)
    (difference : (x - y).isFinite = true) :
    |value (x - y) - (value x - value y)| ≤ |value x - value y| / 2 ^ 24 := by
  obtain ⟨k, first⟩ := exists_multiple finite
  obtain ⟨l, second⟩ := exists_multiple finite'
  refine (isRounded_sub finite finite').error_of_multiple difference (k := k - l) ?_
  rw [first, second]
  push_cast
  ring

/-- The opposite difference. -/
theorem sub_swap (finite : x.isFinite = true) (finite' : y.isFinite = true)
    (difference : (x - y).isFinite = true) :
    (y - x).isFinite = true ∧ value (y - x) = -value (x - y) := by
  have rounded := isRounded_sub finite finite'
  have swapped := isRounded_sub finite' finite
  rw [← neg_sub] at swapped
  obtain ⟨iff, opposite⟩ := rounded.neg swapped
  exact ⟨iff.mpr difference, opposite difference⟩

/-- The difference of numbers between two others. -/
theorem sub_le {x' y' : Float32} (finite : x.isFinite = true) (finite' : y.isFinite = true)
    (outer : x'.isFinite = true) (outer' : y'.isFinite = true)
    (difference : (x' - y').isFinite = true) (le : value y ≤ value x)
    (within : value x - value y ≤ value x' - value y') :
    (x - y).isFinite = true ∧ 0 ≤ value (x - y) ∧ value (x - y) ≤ value (x' - y') := by
  have inner := isRounded_sub finite finite'
  have whole := isRounded_sub outer outer'
  have nonneg : 0 ≤ value x - value y := sub_nonneg.mpr le
  have smaller := abs_le_abs_of_nonneg nonneg within
  have known := inner.finite_of_le whole smaller difference
  have sign := inner.nonneg known nonneg
  have sign' := whole.nonneg difference (nonneg.trans within)
  refine ⟨known, sign, ?_⟩
  have bounded := inner.abs_mono whole smaller known difference
  rwa [abs_of_nonneg sign, abs_of_nonneg sign'] at bounded

/-! ## Order -/

/-- Stored magnitudes are greater if their exponents are. -/
theorem stored_lt_of_exponent {m n : ℕ} {e k : ℤ} (stored : Stored m e)
    (stored' : Stored n k) (less : e < k) : (m : ℚ) * 2 ^ e < n * 2 ^ k := by
  have few : (m : ℚ) < 2 ^ (24 : ℤ) := by exact_mod_cast stored.bits
  have many : (2 : ℚ) ^ (23 : ℤ) ≤ n := by
    have := stored.least
    exact_mod_cast stored'.filled.resolve_left (by omega)
  calc (m : ℚ) * 2 ^ e < 2 ^ (24 : ℤ) * 2 ^ e :=
        mul_lt_mul_of_pos_right few (two_zpow_pos e)
    _ = 2 ^ (24 + e) := (two_zpow_add _ _).symm
    _ ≤ 2 ^ (23 + k) := two_zpow_le.mpr (by omega)
    _ = 2 ^ (23 : ℤ) * 2 ^ k := two_zpow_add _ _
    _ ≤ n * 2 ^ k := mul_le_mul_of_nonneg_right many (two_zpow_pos k).le

/-- Stored magnitudes are in the order of exponents, then of mantissas. -/
theorem compare_stored {m n : ℕ} {e k : ℤ} (stored : Stored m e)
    (stored' : Stored n k) :
    (compare e k).then (compare m n) = compare (m * 2 ^ e : ℚ) (n * 2 ^ k) := by
  rcases lt_trichotomy e k with less | rfl | greater
  · rw [compare_lt_iff_lt.mpr less]
    exact (compare_lt_iff_lt.mpr (stored_lt_of_exponent stored stored' less)).symm
  · have same : compare e e = .eq := compare_eq_iff_eq.mpr rfl
    have positive := two_zpow_pos e
    rw [same]
    rcases lt_trichotomy m n with less | rfl | greater
    · have less' : (m : ℚ) * 2 ^ e < n * 2 ^ e :=
        mul_lt_mul_of_pos_right (by exact_mod_cast less) positive
      exact (compare_lt_iff_lt.mpr less).trans (compare_lt_iff_lt.mpr less').symm
    · exact (compare_eq_iff_eq.mpr rfl).trans (compare_eq_iff_eq.mpr rfl).symm
    · have greater' : (n : ℚ) * 2 ^ e < m * 2 ^ e :=
        mul_lt_mul_of_pos_right (by exact_mod_cast greater) positive
      exact (compare_gt_iff_gt.mpr greater).trans (compare_gt_iff_gt.mpr greater').symm
  · rw [compare_gt_iff_gt.mpr greater]
    exact (compare_gt_iff_gt.mpr (stored_lt_of_exponent stored' stored greater)).symm

/-- Opposite numbers are in the opposite order. -/
theorem swap_compare (a b : ℚ) : (compare a b).swap = compare (-a) (-b) := by
  rcases lt_trichotomy a b with less | rfl | greater
  · rw [compare_lt_iff_lt.mpr less, compare_gt_iff_gt.mpr (neg_lt_neg less)]
    rfl
  · rw [compare_eq_iff_eq.mpr rfl, compare_eq_iff_eq.mpr rfl]
    rfl
  · rw [compare_gt_iff_gt.mpr greater, compare_lt_iff_lt.mpr (neg_lt_neg greater)]
    rfl

theorem valueOf_positive (m : ℕ) (e : ℤ) (pos : 0 < m) :
    valueOf (.finite .positive m e pos) = m * 2 ^ e := one_mul _

theorem valueOf_negative (m : ℕ) (e : ℤ) (pos : 0 < m) :
    valueOf (.finite .negative m e pos) = -(m * 2 ^ e) := neg_one_mul _

theorem magnitude_pos {m : ℕ} (pos : 0 < m) (e : ℤ) : (0 : ℚ) < m * 2 ^ e :=
  mul_pos (by exact_mod_cast pos) (two_zpow_pos e)

/-- Finite numbers are compared by their values. -/
theorem compare_eq {f g : UnpackedFloat} (stored : Canonical f) (stored' : Canonical g)
    (finite : f.isFinite = true) (finite' : g.isFinite = true) :
    f.compare g = some (compare (valueOf f) (valueOf g)) := by
  rcases finite_cases finite with ⟨s, rfl⟩ | ⟨s, m, e, positive, rfl⟩
  · rw [valueOf_zero]
    rcases finite_cases finite' with ⟨t, rfl⟩ | ⟨t, n, k, positive', rfl⟩
    · exact congrArg some (compare_eq_iff_eq.mpr rfl).symm
    · have magnitude := magnitude_pos positive' k
      cases t
      · rw [valueOf_negative]
        exact congrArg some (compare_gt_iff_gt.mpr (neg_lt_zero.mpr magnitude)).symm
      · rw [valueOf_positive]
        exact congrArg some (compare_lt_iff_lt.mpr magnitude).symm
  have magnitude := magnitude_pos positive e
  rcases finite_cases finite' with ⟨t, rfl⟩ | ⟨t, n, k, positive', rfl⟩
  · rw [valueOf_zero]
    cases s
    · rw [valueOf_negative]
      exact congrArg some (compare_lt_iff_lt.mpr (neg_lt_zero.mpr magnitude)).symm
    · rw [valueOf_positive]
      exact congrArg some (compare_gt_iff_gt.mpr magnitude).symm
  · have magnitude' := magnitude_pos positive' k
    have compared := compare_stored stored stored'
    cases s <;> cases t
    · rw [valueOf_negative, valueOf_negative, ← swap_compare, ← compared]
      rfl
    · rw [valueOf_negative, valueOf_positive]
      exact congrArg some (compare_lt_iff_lt.mpr (by linarith)).symm
    · rw [valueOf_positive, valueOf_negative]
      exact congrArg some (compare_gt_iff_gt.mpr (by linarith)).symm
    · rw [valueOf_positive, valueOf_positive]
      exact congrArg some compared

theorem lt_iff_value_lt (finite : x.isFinite = true) (finite' : y.isFinite = true) :
    x < y ↔ value x < value y := by
  have unfolded : x < y ↔ x.toModel.unpack.lt y.toModel.unpack = true :=
    decide_eq_true_iff
  rw [unfolded, UnpackedFloat.lt, compare_eq (canonical x) (canonical y) finite finite',
    beq_iff_eq, Option.some_inj, compare_lt_iff_lt]
  rfl

/-! ## Exact operations -/

theorem value_abs (finite : x.isFinite = true) :
    x.abs.isFinite = true ∧ value x.abs = |value x| := by
  have unpacked : x.abs.toModel.unpack = settled x.toModel.unpack.abs := rfl
  have stored := canonical x
  have rounded : IsRounded x.abs |value x| := by
    unfold value
    rcases finite_cases finite with ⟨s, zero⟩ | ⟨s, m, e, pos, parts⟩
    · rw [zero] at unpacked ⊢
      rw [valueOf_zero, abs_zero]
      exact isRounded_zero unpacked
    · rw [parts] at unpacked stored ⊢
      rw [valueOf_finite, abs_factor_mul, abs_of_pos (magnitude_pos pos e),
        ← valueOf_positive m e pos]
      exact isRounded_of_canonical unpacked stored rfl
  exact rounded.exact_of_abs finite (abs_abs _)

theorem value_neg (finite : x.isFinite = true) :
    (-x).isFinite = true ∧ value (-x) = -value x := by
  have unpacked : (-x).toModel.unpack = settled x.toModel.unpack.neg := rfl
  have stored := canonical x
  have rounded : IsRounded (-x) (-value x) := by
    unfold value
    rcases finite_cases finite with ⟨s, zero⟩ | ⟨s, m, e, pos, parts⟩
    · rw [zero] at unpacked ⊢
      rw [valueOf_zero, neg_zero]
      exact isRounded_zero unpacked
    · rw [parts] at unpacked stored ⊢
      rw [neg_valueOf_finite]
      exact isRounded_of_canonical unpacked stored rfl
  exact rounded.exact_of_abs finite (abs_neg _)

/-- The number one is written with the least mantissa. -/
theorem value_one :
    (Float32.ofBits 0x3F800000).isFinite = true ∧ value (.ofBits 0x3F800000) = 1 := by
  have unpacked : (Float32.ofBits 0x3F800000).toModel.unpack =
      .finite .positive (2 ^ 23) (-23) (by decide) := rfl
  constructor
  · rfl
  · rw [value, unpacked, valueOf_positive]
    norm_num

/-- Whole numbers of 23 bits are converted exactly. -/
theorem value_ofNat {n : ℕ} (small : n < 2 ^ 23) :
    (Float32.ofNat n).isFinite = true ∧ value (.ofNat n) = n := by
  have written : Float32.ofNat n = n.toUInt64.toFloat32 * .ofBits 0x3F800000 :=
    dif_pos ⟨small, by decide⟩
  have small' : (n : ℚ) ≤ 2 ^ 23 := by exact_mod_cast small.le
  have kept : n.toUInt64.toNat = n := Nat.mod_eq_of_lt (by omega)
  have converted : IsRounded n.toUInt64.toFloat32 n := by
    have rounded : IsRounded n.toUInt64.toFloat32
        ((n.toUInt64.toNat : ℤ) * 2 ^ (0 : ℤ)) :=
      isRounded_of_normalize rfl
    rwa [kept, zpow_zero, mul_one] at rounded
  have finite : n.toUInt64.toFloat32.isFinite = true := by
    refine converted.finite_of_small ?_
    rw [abs_of_nonneg (Nat.cast_nonneg n)]
    exact small'.trans (by norm_num)
  have whole : value n.toUInt64.toFloat32 = n :=
    converted.exact finite (k := n) (e := 0) (by omega) (by decide) (by simp)
  obtain ⟨finite', one⟩ := value_one
  have product := isRounded_mul finite finite'
  rw [one, mul_one, ← written] at product
  rw [← whole]
  exact product.exact_of_abs finite rfl

/-- Whole numbers of 23 bits are converted exactly. -/
theorem value_ofInt {n : ℤ} (small : n.natAbs < 2 ^ 23) :
    (Float32.ofInt n).isFinite = true ∧ value (.ofInt n) = n := by
  cases n with
  | ofNat n => exact value_ofNat small
  | negSucc n =>
    obtain ⟨finite, whole⟩ := value_ofNat (n := n + 1) small
    obtain ⟨finite', negated⟩ := value_neg finite
    refine ⟨finite', ?_⟩
    rw [Int.cast_negSucc, ← whole]
    exact negated

end FieldMesh.Binary32
