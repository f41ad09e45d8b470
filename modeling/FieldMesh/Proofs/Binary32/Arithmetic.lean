import FieldMesh.Proofs.Binary32.Values
import Mathlib.Tactic.FieldSimp

/-!
# Arithmetic with single-precision numbers

Each operation on finite numbers gives the exact result, rounded: `isRounded_mul`,
`isRounded_div`, `isRounded_add` and `isRounded_sub`. They come from what the unpacked
numbers do.

* `isRounded_of_roundWithAccuracy`, `isRounded_of_normalize`: a mantissa that was rounded or
  normalized is rounded from its value;
* `describes_divCore`: the long division keeps enough bits of the quotient;
* `valueOf_decreaseExponent`: a sum is formed over a common exponent.
-/

namespace FieldMesh.Binary32

open Float.Model (Format UnpackedFloat totalExponent)
open Float.Model.UnpackedFloat (Sign Accuracy accuracyOfFraction decreaseExponent
  divCore roundWithAccuracy)

/-! ## Rounding to numbers -/

/-- A mantissa that was rounded, with a sign. -/
theorem isRounded_of_roundWithAccuracy {x : Float32} {s : Sign} {m : ℕ} {e : ℤ}
    {accuracy : Accuracy} {r : ℚ}
    (unpacked : x.toModel.unpack =
      settled (roundWithAccuracy .binary32 s m e accuracy))
    (describes : Describes m accuracy (r / 2 ^ e))
    (enough : e ≤ max (m.log2 + e - 23) (-149)) : IsRounded x (factor s * r) := by
  obtain ⟨n, rounds, same⟩ := roundWithAccuracy_eq s describes enough
  rw [same] at unpacked
  refine isRounded_of_rounds ?_ rounds unpacked
  have whole := (le_div_iff₀ (two_zpow_pos e)).mp describes.bounds.1
  exact (mul_nonneg (Nat.cast_nonneg m) (two_zpow_pos e).le).trans whole

theorem log2_shiftLeft {m : ℕ} (nonzero : m ≠ 0) (k : ℕ) :
    (m <<< k).log2 = m.log2 + k := by
  have positive : 0 < 2 ^ k := Nat.two_pow_pos k
  rw [Nat.shiftLeft_eq, Nat.log2_eq_iff (Nat.mul_ne_zero nonzero positive.ne')]
  constructor
  · rw [Nat.pow_add]
    exact Nat.mul_le_mul_right _ (Nat.log2_self_le nonzero)
  · rw [Nat.add_right_comm, Nat.pow_add _ _ k]
    exact Nat.mul_lt_mul_of_pos_right Nat.lt_log2_self positive

/-- Bits that are shifted in do not change a number. -/
theorem shiftLeft_value (m : ℕ) (e target : ℤ) :
    ((decreaseExponent m e target).1 : ℚ) * 2 ^ (decreaseExponent m e target).2 =
      m * 2 ^ e := by
  simp only [decreaseExponent, Nat.shiftLeft_eq]
  generalize (e - target).toNat = k
  have exponent : e = e - k + k := by omega
  rw [exponent, two_zpow_add, zpow_natCast]
  push_cast
  simp only [sub_add_cancel]
  ring

/-- A mantissa is rounded with as many bits as are needed. -/
theorem isRounded_of_round {x : Float32} {s : Sign} {m : ℕ} {e : ℤ} (nonzero : m ≠ 0)
    (unpacked : x.toModel.unpack =
      settled (UnpackedFloat.round .binary32 s m e)) :
    IsRounded x (factor s * (m * 2 ^ e)) := by
  rw [UnpackedFloat.round, targetExponent_eq] at unpacked
  have kept := shiftLeft_value m e (max (m.log2 + e - 23) (-149))
  simp only [decreaseExponent] at kept unpacked
  generalize steps : (e - max ((m.log2 : ℤ) + e - 23) (-149)).toNat = k at kept unpacked
  refine isRounded_of_roundWithAccuracy unpacked ?_ ?_
  · rw [← kept]
    exact mul_div_cancel_right₀ _ (two_zpow_pos _).ne'
  · rw [log2_shiftLeft nonzero]
    push_cast
    omega

/-- A whole number with an exponent, rounded. -/
theorem isRounded_of_normalize {x : Float32} {n : ℤ} {e : ℤ} {zeroSign : Sign}
    (unpacked : x.toModel.unpack =
      settled (UnpackedFloat.normalize .binary32 n e zeroSign)) : IsRounded x (n * 2 ^ e) := by
  rw [UnpackedFloat.normalize] at unpacked
  rcases lt_trichotomy n 0 with negative | rfl | positive
  · have below : compare n 0 = .lt := Int.compare_eq_lt.mpr negative
    rw [below] at unpacked
    have magnitude : ((-n).toNat : ℤ) = -n := Int.toNat_of_nonneg (by omega)
    have magnitude' : ((-n).toNat : ℚ) = -n := by exact_mod_cast magnitude
    have rounded := isRounded_of_round (by omega) unpacked
    rw [factor, magnitude'] at rounded
    have same : (n : ℚ) * 2 ^ e = -1 * (-n * 2 ^ e) := by ring
    rwa [same]
  · have zero := isRounded_of_canonical unpacked trivial rfl
    rwa [Int.cast_zero, zero_mul]
  · have above : compare n 0 = .gt := Int.compare_eq_gt.mpr positive
    rw [above] at unpacked
    have magnitude : (n.toNat : ℤ) = n := Int.toNat_of_nonneg positive.le
    have magnitude' : (n.toNat : ℚ) = n := by exact_mod_cast magnitude
    have rounded := isRounded_of_round (by omega) unpacked
    rwa [factor, magnitude', one_mul] at rounded

/-! ## Signs -/

theorem factor_neg (s : Sign) : factor (-s) = -factor s := by
  cases s
  · exact (neg_neg 1).symm
  · rfl

theorem factor_mul (s t : Sign) : factor (s * t) = factor s * factor t := by
  have once : (1 : ℚ) = -1 * -1 := by norm_num
  cases s <;> cases t
  · exact once
  · exact (mul_one (-1)).symm
  · exact (one_mul (-1)).symm
  · exact (one_mul 1).symm

theorem factor_div (s t : Sign) : factor (s / t) = factor s / factor t := by
  have same : s / t = s * t := by cases s <;> cases t <;> rfl
  have inverse : (factor t)⁻¹ = factor t := by cases t <;> norm_num [factor]
  rw [same, factor_mul, div_eq_mul_inv, inverse]

theorem cast_apply (s : Sign) (n : ℤ) : ((s.apply n : ℤ) : ℚ) = factor s * n := by
  cases s <;> simp [Sign.apply, factor]

/-- The opposite number has the opposite sign. -/
theorem neg_valueOf_finite (s : Sign) (m : ℕ) (e : ℤ) (pos : 0 < m) :
    -valueOf (.finite s m e pos) = valueOf (.finite (-s) m e pos) := by
  rw [valueOf_finite, valueOf_finite, factor_neg, neg_mul]

/-! ## Bits -/

/-- A product has as many bits as are kept of it. -/
theorem enough_of_mul {m n : ℕ} {e k : ℤ} (stored : Stored m e) (stored' : Stored n k)
    (pos : 0 < m) (pos' : 0 < n) :
    e + k ≤ max ((m * n).log2 + (e + k) - 23) (-149) := by
  have long (many : 2 ^ 23 ≤ m * n) : 23 ≤ (m * n).log2 :=
    (Nat.le_log2 (Nat.mul_pos pos pos').ne').mpr many
  rcases stored.filled with rfl | many
  · rcases stored'.filled with rfl | many
    · omega
    · have := long (many.trans (Nat.le_mul_of_pos_left n pos))
      omega
  · have := long (many.trans (Nat.le_mul_of_pos_right m pos'))
    omega

/-- A quotient and what is left of it. -/
theorem describes_of_div (n : ℕ) {d : ℕ} (pos : 0 < d) :
    Describes (n / d) (accuracyOfFraction (n % d) d) ((n : ℚ) / d) := by
  have positive : (0 : ℚ) < d := by exact_mod_cast pos
  have split : (n : ℚ) = d * (n / d : ℕ) + (n % d : ℕ) := by
    exact_mod_cast (Nat.div_add_mod n d).symm
  have whole : (n : ℚ) / d = (n / d : ℕ) + (n % d : ℕ) / d := by
    rw [split, add_div, mul_div_cancel_left₀ _ positive.ne']
  have less : ((n % d : ℕ) : ℚ) / d < 1 := by
    rw [div_lt_one positive]
    exact_mod_cast Nat.mod_lt n pos
  rw [whole, accuracyOfFraction]
  -- what is left is compared with half of the divisor
  generalize n / d = q
  generalize n % d = r at less ⊢
  split
  · next zero => simp [Describes, zero]
  next rest =>
  have more : (0 : ℚ) < r / d :=
    div_pos (by exact_mod_cast Nat.pos_of_ne_zero rest) positive
  cases compared : compare (2 * r) d
  · have below : 2 * (r : ℚ) < d := by
      exact_mod_cast Nat.compare_eq_lt.mp compared
    have small : (r : ℚ) / d < 1 / 2 := by
      rw [div_lt_iff₀ positive]
      linarith
    exact ⟨by linarith, by linarith⟩
  · have same : 2 * (r : ℚ) = d := by
      exact_mod_cast Nat.compare_eq_eq.mp compared
    have half : (r : ℚ) / d = 1 / 2 := by
      rw [div_eq_iff positive.ne']
      linarith
    exact congrArg (_ + ·) half
  · have above : (d : ℚ) < 2 * r := by
      exact_mod_cast Nat.compare_eq_gt.mp compared
    have large : 1 / 2 < (r : ℚ) / d := by
      rw [lt_div_iff₀ positive]
      linarith
    exact ⟨by linarith, by linarith⟩

/-- A quotient is computed with as many bits as are kept of it. -/
theorem describes_divCore {m n : ℕ} {e k : ℤ} (pos : 0 < m) (pos' : 0 < n) :
    let parts := divCore .binary32 m e n k
    Describes parts.1 parts.2.2 (m * 2 ^ e / (n * 2 ^ k) / 2 ^ parts.2.1) ∧
      parts.2.1 ≤ max (parts.1.log2 + parts.2.1 - 23) (-149) := by
  have target : Format.binary32.targetExponent (totalExponent m e - totalExponent n k) =
      max (m.log2 + e - (n.log2 + k) - 24) (-149) := by
    show max ((m.log2 : ℤ) + 1 + e - (n.log2 + 1 + k) - (1 + 23 : ℕ))
      (3 - 2 ^ (8 - 1) - (1 + 23 : ℕ)) = _
    norm_num
    omega
  simp only [divCore, target]
  generalize low : min (e - k) (max ((m.log2 : ℤ) + e - (n.log2 + k) - 24) (-149)) = t
  obtain ⟨steps, shift⟩ := Int.le.dest (show t ≤ e - k by omega)
  have count : (e - k - t).toNat = steps := by omega
  rw [count]
  constructor
  · have same : (m : ℚ) * 2 ^ e / (n * 2 ^ k) / 2 ^ t = (m <<< steps : ℕ) / n := by
      have exponent : e = t + steps + k := by omega
      have positive : (n : ℚ) ≠ 0 := by exact_mod_cast pos'.ne'
      have positive' := (two_zpow_pos k).ne'
      have positive'' := (two_zpow_pos t).ne'
      rw [exponent, two_zpow_add, two_zpow_add, zpow_natCast, Nat.shiftLeft_eq]
      push_cast
      field_simp
    rw [same]
    exact describes_of_div _ pos'
  · by_cases least : t ≤ -149
    · exact le_max_of_le_right least
    · -- the dividend is made 24 bits longer than the divisor
      have long : 2 ^ 23 ≤ m <<< steps / n := by
        rw [Nat.le_div_iff_mul_le pos']
        calc 2 ^ 23 * n ≤ 2 ^ 23 * 2 ^ (n.log2 + 1) :=
              Nat.mul_le_mul_left _ Nat.lt_log2_self.le
          _ = 2 ^ (23 + (n.log2 + 1)) := (Nat.pow_add ..).symm
          _ ≤ 2 ^ (m.log2 + steps) := Nat.pow_le_pow_right two_pos (by omega)
          _ = 2 ^ m.log2 * 2 ^ steps := Nat.pow_add ..
          _ ≤ m * 2 ^ steps := Nat.mul_le_mul_right _ (Nat.log2_self_le pos.ne')
          _ = m <<< steps := (Nat.shiftLeft_eq ..).symm
      have := (Nat.le_log2 (Nat.pos_of_ne_zero fun zero => by
        rw [zero] at long
        omega).ne').mpr long
      omega

/-! ## Operations -/

/-- Loaded numbers are of the form in which they are stored. -/
theorem canonical (x : Float32) : Canonical x.toModel.unpack :=
  canonical_unpack x.toModel.toBits.toBitVec

theorem isRounded_zero {x : Float32} {s : Sign}
    (unpacked : x.toModel.unpack = settled (.zero s)) : IsRounded x 0 :=
  isRounded_of_canonical unpacked trivial rfl

/-- Finite numbers are zero or have a mantissa. -/
theorem finite_cases {f : UnpackedFloat} (finite : f.isFinite = true) :
    (∃ s, f = .zero s) ∨ ∃ s m e pos, f = .finite s m e pos := by
  cases f with
  | notANumber => cases finite
  | infinity s => cases finite
  | zero s => exact .inl ⟨s, rfl⟩
  | finite s m e pos => exact .inr ⟨s, m, e, pos, rfl⟩

section

variable {x : Float32} {f g : UnpackedFloat}

theorem isRounded_of_mul (canonical : Canonical f) (canonical' : Canonical g)
    (finite : f.isFinite = true) (finite' : g.isFinite = true)
    (unpacked : x.toModel.unpack = settled (UnpackedFloat.mul .binary32 f g)) :
    IsRounded x (valueOf f * valueOf g) := by
  rcases finite_cases finite with ⟨s, rfl⟩ | ⟨s, m, e, pos, rfl⟩
  · rw [valueOf_zero, zero_mul]
    rcases finite_cases finite' with ⟨t, rfl⟩ | ⟨t, n, k, pos', rfl⟩
    · exact isRounded_zero unpacked
    · exact isRounded_zero unpacked
  rcases finite_cases finite' with ⟨t, rfl⟩ | ⟨t, n, k, pos', rfl⟩
  · rw [valueOf_zero, mul_zero]
    exact isRounded_zero unpacked
  · have product : valueOf (.finite s m e pos) * valueOf (.finite t n k pos') =
        factor (s * t) * ((m * n : ℕ) * 2 ^ (e + k)) := by
      rw [valueOf_finite, valueOf_finite, factor_mul, two_zpow_add]
      push_cast
      ring
    rw [product]
    refine isRounded_of_roundWithAccuracy unpacked ?_
      (enough_of_mul canonical canonical' pos pos')
    exact mul_div_cancel_right₀ _ (two_zpow_pos _).ne'

theorem isRounded_of_div (finite : f.isFinite = true) (finite' : g.isFinite = true)
    (divisor : valueOf g ≠ 0)
    (unpacked : x.toModel.unpack = settled (UnpackedFloat.div .binary32 f g)) :
    IsRounded x (valueOf f / valueOf g) := by
  rcases finite_cases finite' with ⟨t, rfl⟩ | ⟨t, n, k, pos', rfl⟩
  · exact absurd rfl divisor
  rcases finite_cases finite with ⟨s, rfl⟩ | ⟨s, m, e, pos, rfl⟩
  · rw [valueOf_zero, zero_div]
    exact isRounded_zero unpacked
  · have quotient : valueOf (.finite s m e pos) / valueOf (.finite t n k pos') =
        factor (s / t) * (m * 2 ^ e / (n * 2 ^ k)) := by
      rw [valueOf_finite, valueOf_finite, factor_div, mul_div_mul_comm]
    rw [quotient]
    obtain ⟨describes, enough⟩ := describes_divCore (e := e) (k := k) pos pos'
    exact isRounded_of_roundWithAccuracy unpacked describes enough

/-- Numbers with a common exponent. -/
theorem valueOf_decreaseExponent (s : Sign) (m : ℕ) {e : ℤ} (pos : 0 < m) {low : ℤ}
    (le : low ≤ e) :
    valueOf (.finite s m e pos) =
      (s.apply (decreaseExponent m e low).1 : ℤ) * 2 ^ low := by
  have there : (decreaseExponent m e low).2 = low := by
    simp only [decreaseExponent]
    omega
  have kept := shiftLeft_value m e low
  rw [there] at kept
  rw [valueOf_finite, cast_apply, Int.cast_natCast, mul_assoc, kept]

theorem isRounded_of_add (canonical : Canonical f) (canonical' : Canonical g)
    (finite : f.isFinite = true) (finite' : g.isFinite = true)
    (unpacked : x.toModel.unpack = settled (UnpackedFloat.add .binary32 f g)) :
    IsRounded x (valueOf f + valueOf g) := by
  rcases finite_cases finite with ⟨s, rfl⟩ | ⟨s, m, e, pos, rfl⟩
  · rw [valueOf_zero, zero_add]
    rcases finite_cases finite' with ⟨t, rfl⟩ | ⟨t, n, k, pos', rfl⟩
    · cases s <;> cases t <;> exact isRounded_zero unpacked
    · exact isRounded_of_canonical unpacked canonical' rfl
  rcases finite_cases finite' with ⟨t, rfl⟩ | ⟨t, n, k, pos', rfl⟩
  · rw [valueOf_zero, add_zero]
    exact isRounded_of_canonical unpacked canonical rfl
  · have sum := isRounded_of_normalize unpacked
    rw [valueOf_decreaseExponent s m pos (min_le_left e k),
      valueOf_decreaseExponent t n pos' (min_le_right e k), ← add_mul, ← Int.cast_add]
    exact sum

theorem isRounded_of_sub (canonical : Canonical f) (canonical' : Canonical g)
    (finite : f.isFinite = true) (finite' : g.isFinite = true)
    (unpacked : x.toModel.unpack = settled (UnpackedFloat.sub .binary32 f g)) :
    IsRounded x (valueOf f - valueOf g) := by
  rcases finite_cases finite with ⟨s, rfl⟩ | ⟨s, m, e, pos, rfl⟩
  · rw [valueOf_zero, zero_sub]
    rcases finite_cases finite' with ⟨t, rfl⟩ | ⟨t, n, k, pos', rfl⟩
    · rw [valueOf_zero, neg_zero]
      cases s <;> cases t <;> exact isRounded_zero unpacked
    · rw [neg_valueOf_finite]
      exact isRounded_of_canonical unpacked canonical' rfl
  rcases finite_cases finite' with ⟨t, rfl⟩ | ⟨t, n, k, pos', rfl⟩
  · rw [valueOf_zero, sub_zero]
    exact isRounded_of_canonical unpacked canonical rfl
  · have difference := isRounded_of_normalize unpacked
    rw [valueOf_decreaseExponent s m pos (min_le_left e k),
      valueOf_decreaseExponent t n pos' (min_le_right e k), ← sub_mul, ← Int.cast_sub]
    exact difference

end

/-! ## Numbers -/

section

variable {x y : Float32}

theorem isRounded_mul (finite : x.isFinite = true) (finite' : y.isFinite = true) :
    IsRounded (x * y) (value x * value y) :=
  isRounded_of_mul (canonical x) (canonical y) finite finite' rfl

theorem isRounded_div (finite : x.isFinite = true) (finite' : y.isFinite = true)
    (divisor : value y ≠ 0) : IsRounded (x / y) (value x / value y) :=
  isRounded_of_div finite finite' divisor rfl

theorem isRounded_add (finite : x.isFinite = true) (finite' : y.isFinite = true) :
    IsRounded (x + y) (value x + value y) :=
  isRounded_of_add (canonical x) (canonical y) finite finite' rfl

theorem isRounded_sub (finite : x.isFinite = true) (finite' : y.isFinite = true) :
    IsRounded (x - y) (value x - value y) :=
  isRounded_of_sub (canonical x) (canonical y) finite finite' rfl

end

end FieldMesh.Binary32
