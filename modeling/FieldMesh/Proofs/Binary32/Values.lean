import FieldMesh.Proofs.Binary32.Storage

/-!
# Values of single-precision numbers

The rational number that a finite number stands for, and when a number is
another one rounded.

* `value`: what a finite number stands for;
* `IsRounded`: a number that is a rational number rounded, or too large for it;
* `IsRounded.error`, `IsRounded.error_of_multiple`: how far it is off;
* `IsRounded.abs_mono`, `IsRounded.finite_of_le`: rounding keeps the order;
* `IsRounded.exact`: what has 24 bits is kept.
-/

namespace FieldMesh.Binary32

open Float.Model (UnpackedFloat)
open Float.Model.UnpackedFloat (Sign)

/-! ## Values -/

/-- The factor of a sign. -/
def factor : Sign → ℚ
  | .positive => 1
  | .negative => -1

theorem abs_factor (s : Sign) : |factor s| = 1 := by
  cases s <;> simp [factor]

theorem abs_factor_mul (s : Sign) (r : ℚ) : |factor s * r| = |r| := by
  rw [abs_mul, abs_factor, one_mul]

/-- What an unpacked number stands for. -/
def valueOf : UnpackedFloat → ℚ
  | .finite s m e _ => factor s * (m * 2 ^ e)
  | _ => 0

theorem valueOf_zero (s : Sign) : valueOf (.zero s) = 0 := rfl

theorem valueOf_finite (s : Sign) (m : ℕ) (e : ℤ) (pos : 0 < m) :
    valueOf (.finite s m e pos) = factor s * (m * 2 ^ e) := rfl

/-- What a finite number stands for. -/
def value (x : Float32) : ℚ := valueOf x.toModel.unpack

theorem valueOf_carried (s : Sign) (n : ℕ) (scale : ℤ) :
    valueOf (carried s n scale) = factor s * (n * 2 ^ scale) := by
  rcases carried_cases s n scale with ⟨zero, form⟩ | ⟨carry, form⟩ | ⟨pos, -, form⟩ <;>
    rw [form]
  · rw [valueOf_zero, zero, Nat.cast_zero, zero_mul, mul_zero]
  · rw [valueOf_finite, carry, two_zpow_add]
    push_cast
    ring
  · rfl

theorem isFinite_carried (s : Sign) (n : ℕ) (scale : ℤ) :
    (carried s n scale).isFinite = true := by
  rcases carried_cases s n scale with ⟨-, form⟩ | ⟨-, form⟩ | ⟨pos, -, form⟩ <;>
    rw [form] <;> rfl

/-- Stored numbers are too large from `2 ^ 128` on. -/
theorem stored_lt_iff {m : ℕ} {e : ℤ} (stored : Stored m e) :
    (m : ℚ) * 2 ^ e < 2 ^ (128 : ℤ) ↔ e ≤ 104 := by
  constructor
  · intro below
    by_contra large
    have many : (2 : ℚ) ^ (23 : ℤ) ≤ m := by
      have := stored.filled.resolve_left (by omega)
      exact_mod_cast this
    have above : (2 : ℚ) ^ (128 : ℤ) ≤ m * 2 ^ e :=
      calc (2 : ℚ) ^ (128 : ℤ) ≤ 2 ^ (23 + e) := two_zpow_le.mpr (by omega)
        _ = 2 ^ (23 : ℤ) * 2 ^ e := two_zpow_add _ _
        _ ≤ m * 2 ^ e := mul_le_mul_of_nonneg_right many (two_zpow_pos e).le
    exact absurd below (not_lt.mpr above)
  · intro small
    have few : (m : ℚ) < 2 ^ (24 : ℤ) := by exact_mod_cast stored.bits
    calc (m : ℚ) * 2 ^ e < 2 ^ (24 : ℤ) * 2 ^ e :=
          mul_lt_mul_of_pos_right few (two_zpow_pos e)
      _ = 2 ^ (24 + e) := (two_zpow_add _ _).symm
      _ ≤ 2 ^ (128 : ℤ) := two_zpow_le.mpr (by omega)

/-- A canonical number is found again unless it is too large. -/
theorem settled_of_canonical {f : UnpackedFloat} (canonical : Canonical f)
    (finite : f.isFinite = true) :
    (|valueOf f| < 2 ^ (128 : ℤ) → settled f = f) ∧
      (2 ^ (128 : ℤ) ≤ |valueOf f| → ∃ s, settled f = .infinity s) := by
  cases f with
  | notANumber => cases finite
  | infinity s => cases finite
  | zero s =>
    refine ⟨fun _ => settled_zero s, fun large => ?_⟩
    rw [valueOf_zero, abs_zero] at large
    exact absurd large (not_le.mpr (two_zpow_pos _))
  | finite s m e some =>
    have magnitude : |valueOf (.finite s m e some)| = m * 2 ^ e := by
      rw [valueOf_finite, abs_factor_mul]
      exact abs_of_nonneg (mul_nonneg (Nat.cast_nonneg m) (two_zpow_pos e).le)
    rw [magnitude, ← not_lt, stored_lt_iff canonical, settled_finite canonical]
    exact ⟨fun small => if_pos small, fun large => ⟨s, if_neg large⟩⟩

/-! ## Rounded numbers -/

/-- `IsRounded x r`: the number is `r` rounded to 24 bits, or infinite if that
is too large. -/
def IsRounded (x : Float32) (r : ℚ) : Prop :=
  ∃ s n scale, factor s * |r| = r ∧ Rounds |r| n scale ∧
    x.toModel.unpack = settled (carried s n scale)

namespace IsRounded

variable {x y : Float32} {r q : ℚ}

/-- The parts of a rounded number. -/
theorem parts (rounded : IsRounded x r) :
    ∃ s n scale, factor s * |r| = r ∧ Rounds |r| n scale ∧
      (x.isFinite = true ↔ (n : ℚ) * 2 ^ scale < 2 ^ (128 : ℤ)) ∧
      (x.isFinite = true → value x = factor s * (n * 2 ^ scale)) := by
  obtain ⟨s, n, scale, sign, rounds, unpacked⟩ := rounded
  have finite := isFinite_carried s n scale
  have magnitude : |valueOf (carried s n scale)| = n * 2 ^ scale := by
    rw [valueOf_carried, abs_factor_mul]
    exact abs_of_nonneg (mul_nonneg (Nat.cast_nonneg n) (two_zpow_pos scale).le)
  obtain ⟨small, large⟩ := settled_of_canonical (canonical_carried rounds s) finite
  rw [magnitude] at small large
  have isFinite_iff : x.isFinite = (settled (carried s n scale)).isFinite :=
    congrArg UnpackedFloat.isFinite unpacked
  refine ⟨s, n, scale, sign, rounds, ⟨fun held => ?_, fun below => ?_⟩, fun held => ?_⟩
  · by_contra above
    obtain ⟨t, infinite⟩ := large (not_lt.mp above)
    rw [isFinite_iff, infinite] at held
    cases held
  · rw [isFinite_iff, small below, finite]
  · have below : (n : ℚ) * 2 ^ scale < 2 ^ (128 : ℤ) := by
      by_contra above
      obtain ⟨t, infinite⟩ := large (not_lt.mp above)
      rw [isFinite_iff, infinite] at held
      cases held
    rw [value, unpacked, small below, valueOf_carried]

/-- What is smaller than a finite number is finite. -/
theorem finite_of_le (first : IsRounded x r) (second : IsRounded y q)
    (le : |r| ≤ |q|) (finite : y.isFinite = true) : x.isFinite = true := by
  obtain ⟨_, n, scale, -, rounds, iff, -⟩ := first.parts
  obtain ⟨_, n', scale', -, rounds', iff', -⟩ := second.parts
  exact iff.mpr ((rounds.mono rounds' le).trans_lt (iff'.mp finite))

/-- Rounding keeps the order of magnitudes. -/
theorem abs_mono (first : IsRounded x r) (second : IsRounded y q) (le : |r| ≤ |q|)
    (finite : x.isFinite = true) (finite' : y.isFinite = true) :
    |value x| ≤ |value y| := by
  obtain ⟨s, n, scale, -, rounds, -, held⟩ := first.parts
  obtain ⟨s', n', scale', -, rounds', -, held'⟩ := second.parts
  rw [held finite, held' finite', abs_factor_mul, abs_factor_mul]
  exact abs_le_abs_of_nonneg (mul_nonneg (Nat.cast_nonneg n) (two_zpow_pos scale).le)
    (rounds.mono rounds' le)

/-- A number is off by what rounding moves its magnitude. -/
theorem error_eq (rounded : IsRounded x r) (finite : x.isFinite = true) :
    ∃ n scale, Rounds |r| n scale ∧ |value x - r| = |((n : ℚ) * 2 ^ scale - |r|)| := by
  obtain ⟨s, n, scale, sign, rounds, -, held⟩ := rounded.parts
  refine ⟨n, scale, rounds, ?_⟩
  calc |value x - r| = |factor s * ((n : ℚ) * 2 ^ scale - |r|)| := by
        rw [held finite, mul_sub, sign]
    _ = |((n : ℚ) * 2 ^ scale - |r|)| := abs_factor_mul s _

/-- A number is off by at most one part in `2 ^ 24`, or by `2 ^ -150`. -/
theorem error (rounded : IsRounded x r) (finite : x.isFinite = true) :
    |value x - r| ≤ |r| / 2 ^ 24 + 2 ^ (-150 : ℤ) := by
  obtain ⟨n, scale, rounds, same⟩ := rounded.error_eq finite
  rw [same]
  exact rounds.error (abs_nonneg r)

/-- If it stands for a multiple of `2 ^ -149`, it is off by a part only. -/
theorem error_of_multiple (rounded : IsRounded x r) (finite : x.isFinite = true)
    {k : ℤ} (multiple : r = k * 2 ^ (-149 : ℤ)) : |value x - r| ≤ |r| / 2 ^ 24 := by
  obtain ⟨n, scale, rounds, same⟩ := rounded.error_eq finite
  rw [same]
  refine rounds.error_of_multiple (k := k.natAbs) ?_
  rw [multiple, abs_mul, abs_of_pos (two_zpow_pos _), Nat.cast_natAbs, Int.cast_abs]

/-- What has 24 bits is kept. -/
theorem exact (rounded : IsRounded x r) (finite : x.isFinite = true) {k e : ℤ}
    (bits : k.natAbs < 2 ^ 24) (least : -149 ≤ e) (same : r = k * 2 ^ e) :
    value x = r := by
  obtain ⟨n, scale, rounds, off⟩ := rounded.error_eq finite
  have magnitude : |r| = k.natAbs * 2 ^ e := by
    rw [same, abs_mul, abs_of_pos (two_zpow_pos _), Nat.cast_natAbs, Int.cast_abs]
  rw [rounds.exact bits least magnitude, sub_self, abs_zero, abs_eq_zero] at off
  linarith

/-- Nothing is rounded to nothing. -/
theorem eq_zero (rounded : IsRounded x 0) (finite : x.isFinite = true) :
    value x = 0 :=
  rounded.exact finite (k := 0) (e := 0) (by decide) (by decide) (by simp)

/-- What is opposite is rounded to what is opposite. -/
theorem neg (first : IsRounded x r) (second : IsRounded y (-r)) :
    (y.isFinite = true ↔ x.isFinite = true) ∧
      (x.isFinite = true → value y = -value x) := by
  obtain ⟨s, n, scale, sign, rounds, iff, held⟩ := first.parts
  obtain ⟨s', n', scale', sign', rounds', iff', held'⟩ := second.parts
  rw [abs_neg] at sign' rounds'
  have same := rounds.unique rounds'
  have both : y.isFinite = true ↔ x.isFinite = true := by rw [iff, iff', same]
  refine ⟨both, fun finite => ?_⟩
  rcases eq_or_ne r 0 with rfl | some
  · rw [neg_zero] at second
    rw [first.eq_zero finite, second.eq_zero (both.mpr finite), neg_zero]
  · rw [held finite, held' (both.mpr finite), ← same]
    have opposite : factor s' * |r| = -factor s * |r| := by linarith
    rw [mul_right_cancel₀ (abs_ne_zero.mpr some) opposite, neg_mul]

/-- Rounding does not change the sign. -/
theorem same_sign (rounded : IsRounded x r) (finite : x.isFinite = true) :
    0 ≤ value x * r := by
  obtain ⟨s, n, scale, sign, -, -, held⟩ := rounded.parts
  have square : factor s * factor s = 1 := by cases s <;> norm_num [factor]
  have same : value x * r = n * 2 ^ scale * |r| := by
    rw [held finite]
    calc factor s * (n * 2 ^ scale) * r = factor s * (n * 2 ^ scale) * (factor s * |r|) := by
          rw [sign]
      _ = factor s * factor s * (n * 2 ^ scale * |r|) := by ring
      _ = n * 2 ^ scale * |r| := by rw [square, one_mul]
  rw [same]
  positivity

theorem nonneg (rounded : IsRounded x r) (finite : x.isFinite = true) (sign : 0 ≤ r) :
    0 ≤ value x := by
  rcases sign.eq_or_lt with rfl | positive
  · exact (rounded.eq_zero finite).ge
  · exact nonneg_of_mul_nonneg_left (rounded.same_sign finite) positive

end IsRounded

/-! ## Sources of rounded numbers -/

/-- A stored magnitude is rounded to itself. -/
theorem Stored.rounds {m : ℕ} {e : ℤ} (stored : Stored m e) :
    Rounds (m * 2 ^ e) m e where
  least := stored.least
  below := by
    rw [add_comm, two_zpow_add]
    exact mul_lt_mul_of_pos_right (by exact_mod_cast stored.bits) (two_zpow_pos e)
  filled := by
    refine stored.filled.imp_right fun many => ?_
    rw [add_comm, two_zpow_add]
    exact mul_le_mul_of_nonneg_right (by exact_mod_cast many) (two_zpow_pos e).le
  nearest := by
    rw [mul_div_assoc, div_self (two_zpow_pos e).ne', mul_one]
    exact nearest_self m

theorem rounds_zero : Rounds 0 0 (-149) where
  least := le_rfl
  below := two_zpow_pos _
  filled := .inl rfl
  nearest := by
    rw [zero_div]
    exact nearest_self 0

/-- A magnitude that was rounded, with a sign. -/
theorem isRounded_of_rounds {x : Float32} {s : Sign} {r : ℚ} {n : ℕ} {scale : ℤ}
    (nonneg : 0 ≤ r) (rounds : Rounds r n scale)
    (unpacked : x.toModel.unpack = settled (carried s n scale)) :
    IsRounded x (factor s * r) := by
  have magnitude : |factor s * r| = r := by
    rw [abs_factor_mul, abs_of_nonneg nonneg]
  refine ⟨s, n, scale, ?_, ?_, unpacked⟩ <;> rw [magnitude]
  exact rounds

/-- A canonical number is rounded from itself. -/
theorem isRounded_of_canonical {x : Float32} {f : UnpackedFloat}
    (unpacked : x.toModel.unpack = settled f) (canonical : Canonical f)
    (finite : f.isFinite = true) : IsRounded x (valueOf f) := by
  cases f with
  | notANumber => cases finite
  | infinity s => cases finite
  | zero s =>
    have rounded := isRounded_of_rounds (s := s) le_rfl rounds_zero unpacked
    rwa [mul_zero] at rounded
  | finite s m e some =>
    have same : carried s m e = .finite s m e some := by
      rw [carried, dif_neg some.ne', if_neg canonical.bits.ne]
    rw [← same] at unpacked
    exact isRounded_of_rounds (mul_nonneg (Nat.cast_nonneg m) (two_zpow_pos e).le)
      canonical.rounds unpacked

end FieldMesh.Binary32
