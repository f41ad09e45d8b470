import Mathlib.Algebra.Order.Field.Rat
import Mathlib.Algebra.Order.Field.Power
import Mathlib.Tactic.Linarith
import Mathlib.Tactic.Positivity
import Mathlib.Tactic.Ring

/-!
# Rounding to 24 bits

What is lost when a magnitude is rounded to 24 bits, or to a multiple of
`2 ^ -149` if it is small.

* `Nearest`: the nearest whole number, and a half goes to the even one;
* `Rounds`: a magnitude and what it is rounded to;
* `Rounds.mono`: rounding keeps the order;
* `Rounds.error`: it moves a magnitude by at most one part in `2 ^ 24`, or by
  `2 ^ -150`;
* `Rounds.exact`: it does not move what has 24 bits.
-/

namespace FieldMesh.Binary32

/-! ## Whole numbers -/

/-- The whole number that is nearest. A half goes to the even one. -/
structure Nearest (n : ℕ) (x : ℚ) : Prop where
  close : |(n : ℚ) - x| ≤ 1 / 2
  even : |(n : ℚ) - x| = 1 / 2 → Even n

theorem nearest_self (n : ℕ) : Nearest n n where
  close := by simp
  even half := by simp at half

namespace Nearest

variable {n m : ℕ} {x y : ℚ}

/-- Greater numbers have greater nearest ones. -/
theorem mono (first : Nearest n x) (second : Nearest m y) (le : x ≤ y) : n ≤ m := by
  by_contra above
  have above : m + 1 ≤ n := Nat.not_le.mp above
  have above' : (m : ℚ) + 1 ≤ n := by exact_mod_cast above
  obtain ⟨-, up⟩ := abs_le.mp first.close
  obtain ⟨down, -⟩ := abs_le.mp second.close
  -- both would be a half away, so both would be even
  have tie : (n : ℚ) - x = 1 / 2 := by linarith
  have tie' : (m : ℚ) - y = -(1 / 2) := by linarith
  have next : n = m + 1 := by
    have : (n : ℚ) = (m + 1 : ℕ) := by push_cast; linarith
    exact_mod_cast this
  have even := first.even (by rw [tie, abs_of_pos one_half_pos])
  have even' := second.even (by rw [tie', abs_neg, abs_of_pos one_half_pos])
  rw [next, Nat.even_add_one] at even
  exact even even'

/-- A whole number is nearest to itself only. -/
theorem eq_of_eq (nearest : Nearest n x) (whole : x = m) : n = m := by
  subst whole
  exact Nat.le_antisymm (nearest.mono (nearest_self m) (le_refl _))
    ((nearest_self m).mono nearest (le_refl _))

end Nearest

/-! ## Magnitudes -/

/-- `Rounds r n scale`: the magnitude is rounded to the multiple
`n * 2 ^ scale`. Its scale is the one that leaves it 24 bits, but not below
the least one. -/
structure Rounds (r : ℚ) (n : ℕ) (scale : ℤ) : Prop where
  least : -149 ≤ scale
  below : r < 2 ^ (scale + 24)
  filled : scale = -149 ∨ 2 ^ (scale + 23) ≤ r
  nearest : Nearest n (r / 2 ^ scale)

theorem two_zpow_pos (e : ℤ) : (0 : ℚ) < 2 ^ e := zpow_pos two_pos e

theorem two_zpow_add (e f : ℤ) : (2 : ℚ) ^ (e + f) = 2 ^ e * 2 ^ f :=
  zpow_add₀ two_ne_zero e f

theorem two_zpow_le {e f : ℤ} : (2 : ℚ) ^ e ≤ 2 ^ f ↔ e ≤ f :=
  zpow_le_zpow_iff_right₀ one_lt_two

theorem two_zpow_lt {e f : ℤ} : (2 : ℚ) ^ e < 2 ^ f ↔ e < f :=
  zpow_lt_zpow_iff_right₀ one_lt_two

namespace Rounds

variable {r r' : ℚ} {n n' : ℕ} {scale scale' : ℤ}

/-- At most the carry goes beyond 24 bits. -/
theorem le_carry (rounds : Rounds r n scale) : n ≤ 2 ^ 24 := by
  refine rounds.nearest.mono (nearest_self _) ?_
  rw [div_le_iff₀ (two_zpow_pos scale)]
  have below := rounds.below.le
  rw [two_zpow_add, mul_comm] at below
  exact_mod_cast below

/-- All 24 bits are used above the least scale. -/
theorem ge_filled (rounds : Rounds r n scale) : scale = -149 ∨ 2 ^ 23 ≤ n := by
  refine rounds.filled.imp_right fun filled => ?_
  refine (nearest_self _).mono rounds.nearest ?_
  rw [le_div_iff₀ (two_zpow_pos scale)]
  rw [two_zpow_add, mul_comm] at filled
  exact_mod_cast filled

/-- Greater magnitudes have greater scales. -/
theorem scale_mono (first : Rounds r n scale) (second : Rounds r' n' scale')
    (le : r ≤ r') : scale ≤ scale' := by
  rcases first.filled with least | filled
  · exact least ▸ second.least
  · have := two_zpow_lt.mp (filled.trans_lt (le.trans_lt second.below))
    omega

/-- Rounding keeps the order. -/
theorem mono (first : Rounds r n scale) (second : Rounds r' n' scale')
    (le : r ≤ r') : (n : ℚ) * 2 ^ scale ≤ n' * 2 ^ scale' := by
  rcases (first.scale_mono second le).eq_or_lt with rfl | less
  · have le' : n ≤ n' := first.nearest.mono second.nearest
      (div_le_div_of_nonneg_right le (two_zpow_pos scale).le)
    exact mul_le_mul_of_nonneg_right (by exact_mod_cast le') (two_zpow_pos scale).le
  · -- a power of two lies between them
    have few : (n : ℚ) ≤ 2 ^ (24 : ℤ) := by exact_mod_cast first.le_carry
    have many : (2 : ℚ) ^ (23 : ℤ) ≤ n' := by
      rcases second.ge_filled with least | many
      · have := first.least
        omega
      · exact_mod_cast many
    calc (n : ℚ) * 2 ^ scale ≤ 2 ^ (24 : ℤ) * 2 ^ scale :=
          mul_le_mul_of_nonneg_right few (two_zpow_pos scale).le
      _ = 2 ^ (24 + scale) := (two_zpow_add _ _).symm
      _ ≤ 2 ^ (23 + scale') := two_zpow_le.mpr (by omega)
      _ = 2 ^ (23 : ℤ) * 2 ^ scale' := two_zpow_add _ _
      _ ≤ n' * 2 ^ scale' :=
          mul_le_mul_of_nonneg_right many (two_zpow_pos scale').le

/-- The rounded magnitude depends on the magnitude only. -/
theorem unique (first : Rounds r n scale) (second : Rounds r n' scale') :
    (n : ℚ) * 2 ^ scale = n' * 2 ^ scale' :=
  le_antisymm (first.mono second le_rfl) (second.mono first le_rfl)

/-- Rounding moves by at most half of the least bit that is kept. -/
theorem error_half (rounds : Rounds r n scale) :
    |(n : ℚ) * 2 ^ scale - r| ≤ 2 ^ (scale - 1) := by
  have positive := two_zpow_pos scale
  have same : (n : ℚ) * 2 ^ scale - r = (n - r / 2 ^ scale) * 2 ^ scale := by
    rw [sub_mul, div_mul_cancel₀ _ positive.ne']
  have half : (2 : ℚ) ^ (scale - 1) = 1 / 2 * 2 ^ scale := by
    rw [sub_eq_add_neg, two_zpow_add, mul_comm]
    norm_num
  rw [same, abs_mul, abs_of_pos positive, half]
  exact mul_le_mul_of_nonneg_right rounds.nearest.close positive.le

/-- Above the least scale, the error is relative. -/
theorem error_of_filled (rounds : Rounds r n scale)
    (filled : 2 ^ (scale + 23) ≤ r) :
    |(n : ℚ) * 2 ^ scale - r| ≤ r / 2 ^ 24 := by
  refine rounds.error_half.trans ?_
  have split : (2 : ℚ) ^ (scale - 1) = 2 ^ (scale + 23) / 2 ^ 24 := by
    have steps : scale + 23 = scale - 1 + 24 := by omega
    rw [steps, two_zpow_add, eq_div_iff (by positivity)]
    norm_num
  rw [split]
  exact div_le_div_of_nonneg_right filled (by positivity)

/-- Rounding moves by at most one part in `2 ^ 24`, or by `2 ^ -150`. -/
theorem error (rounds : Rounds r n scale) (nonneg : 0 ≤ r) :
    |(n : ℚ) * 2 ^ scale - r| ≤ r / 2 ^ 24 + 2 ^ (-150 : ℤ) := by
  rcases rounds.filled with rfl | filled
  · refine rounds.error_half.trans ?_
    have : 0 ≤ r / 2 ^ 24 := by positivity
    simpa using this
  · have := rounds.error_of_filled filled
    have := two_zpow_pos (-150)
    linarith

/-- Whole multiples of `2 ^ -149` are moved by a part only. -/
theorem error_of_multiple (rounds : Rounds r n scale) {k : ℕ}
    (multiple : r = k * 2 ^ (-149 : ℤ)) :
    |(n : ℚ) * 2 ^ scale - r| ≤ r / 2 ^ 24 := by
  rcases rounds.filled with rfl | filled
  · have whole : r / 2 ^ (-149 : ℤ) = k := by
      rw [multiple, mul_div_assoc, div_self (two_zpow_pos _).ne', mul_one]
    rw [rounds.nearest.eq_of_eq whole, ← multiple, sub_self, abs_zero]
    rw [multiple]
    positivity
  · exact rounds.error_of_filled filled

/-- What has 24 bits is not moved. -/
theorem exact (rounds : Rounds r n scale) {k : ℕ} {e : ℤ} (bits : k < 2 ^ 24)
    (least : -149 ≤ e) (same : r = k * 2 ^ e) : (n : ℚ) * 2 ^ scale = r := by
  have finer : scale ≤ e := by
    rcases rounds.filled with rfl | filled
    · exact least
    · have less : r < 2 ^ (24 + e) := by
        rw [same, two_zpow_add]
        exact mul_lt_mul_of_pos_right (by exact_mod_cast bits) (two_zpow_pos e)
      have := two_zpow_lt.mp (filled.trans_lt less)
      omega
  obtain ⟨steps, rfl⟩ := Int.le.dest finer
  have whole : r / 2 ^ scale = ((k * 2 ^ steps : ℕ) : ℚ) := by
    rw [same, two_zpow_add, zpow_natCast, div_eq_iff (two_zpow_pos scale).ne']
    push_cast
    ring
  rw [rounds.nearest.eq_of_eq whole, ← whole, div_mul_cancel₀ _ (two_zpow_pos scale).ne']

end Rounds

end FieldMesh.Binary32
