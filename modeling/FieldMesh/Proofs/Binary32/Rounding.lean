import FieldMesh.Proofs.Binary32.Nearest

/-!
# Rounding of mantissas

The rounding of a mantissa with an exponent, as it is computed bit by bit, is
rounding to 24 bits.

* `Describes`: what a whole part and an accuracy tell of a number;
* `Describes.nearest`: the rounded mantissa is the nearest one;
* `Describes.shiftToExponent`: what is known stays known when bits go;
* `carried`: a rounded magnitude with a sign;
* **main result**: `roundWithAccuracy_eq`.
-/

namespace FieldMesh.Binary32

open Float.Model Float.Model.UnpackedFloat

/-! ## Accuracy -/

/-- What a whole part and an accuracy tell of a number. -/
def Describes (m : ℕ) : Accuracy → ℚ → Prop
  | .exact, x => x = m
  | .inexact .lt, x => m < x ∧ x < m + 1 / 2
  | .inexact .eq, x => x = m + 1 / 2
  | .inexact .gt, x => m + 1 / 2 < x ∧ x < m + 1

namespace Describes

variable {m : ℕ} {accuracy : Accuracy} {x : ℚ}

/-- The number lies from the whole part to the next whole number. -/
theorem bounds (describes : Describes m accuracy x) : (m : ℚ) ≤ x ∧ x < m + 1 := by
  rcases accuracy with _ | _ | _ | _ <;> simp only [Describes] at describes <;>
    constructor <;> linarith

/-- The rounded mantissa is the nearest whole number. -/
theorem nearest (describes : Describes m accuracy x) :
    Nearest (accuracy.roundToNearestEven m) x := by
  have closer {n : ℕ} (close : |(n : ℚ) - x| < 1 / 2) : Nearest n x :=
    ⟨close.le, fun half => absurd half close.ne⟩
  rcases accuracy with _ | _ | _ | _ <;> simp only [Describes] at describes <;>
    simp only [Accuracy.roundToNearestEven]
  · rw [describes]
    exact nearest_self m
  · exact closer (abs_lt.mpr ⟨by linarith, by linarith⟩)
  · have even : Even (m + m % 2) := by
      rw [Nat.even_iff]
      omega
    refine ⟨?_, fun _ => even⟩
    rw [describes]
    push_cast
    rcases Nat.mod_two_eq_zero_or_one m with bit | bit <;> rw [bit] <;>
      exact abs_le.mpr ⟨by push_cast; linarith, by push_cast; linarith⟩
  · refine closer (abs_lt.mpr ⟨?_, ?_⟩) <;> push_cast <;> linarith

end Describes

/-- The number that the mantissa and the round bit stand for. -/
def keptPart (em : ExtendedMantissa) : ℚ := em.mantissa + em.roundBit.toNat / 2

/-- What an extended mantissa tells of a number: the sticky bit is set if
something is left of it. -/
def DescribedBy (em : ExtendedMantissa) (x : ℚ) : Prop :=
  if em.stickyBit then keptPart em < x ∧ x < keptPart em + 1 / 2
  else x = keptPart em

namespace DescribedBy

variable {em : ExtendedMantissa} {x : ℚ}

theorem of_describes {m : ℕ} {accuracy : Accuracy} (describes : Describes m accuracy x) :
    DescribedBy (.ofMantissaAndAccuracy m accuracy) x := by
  rcases accuracy with _ | _ | _ | _ <;> simp only [Describes] at describes <;>
    simp only [ExtendedMantissa.ofMantissaAndAccuracy, DescribedBy, keptPart]
  · simpa using describes
  · simpa using describes
  · simpa using describes
  · have shown : (m : ℚ) + 1 / 2 < x ∧ x < m + 1 / 2 + 1 / 2 :=
      ⟨describes.1, by linarith⟩
    simpa using shown

theorem describes (described : DescribedBy em x) :
    Describes em.mantissa em.accuracy x := by
  obtain ⟨m, roundBit, stickyBit⟩ := em
  cases roundBit <;> cases stickyBit <;>
    simp only [DescribedBy, keptPart] at described <;>
    simp only [ExtendedMantissa.accuracy, Describes]
  · simpa using described
  · simpa using described
  · simpa using described
  · have shown : (m : ℚ) + 1 / 2 < x ∧ x < m + 1 / 2 + 1 / 2 := by
      simpa using described
    exact ⟨shown.1, by linarith⟩

theorem keptPart_shiftRightOne (em : ExtendedMantissa) :
    keptPart em.shiftRightOne = em.mantissa / 2 := by
  have halves : em.mantissa = 2 * (em.mantissa / 2) + em.mantissa % 2 :=
    (Nat.div_add_mod em.mantissa 2).symm
  have bit : (em.mantissa % 2 != 0).toNat = em.mantissa % 2 := by
    rcases Nat.mod_two_eq_zero_or_one em.mantissa with bit | bit <;> rw [bit] <;> rfl
  have whole : (em.mantissa : ℚ) =
      2 * (em.mantissa / 2 : ℕ) + (em.mantissa % 2 : ℕ) := by
    exact_mod_cast halves
  simp only [keptPart, ExtendedMantissa.shiftRightOne, bit]
  linarith

/-- The last bit becomes the round bit of half the number. -/
theorem shiftRightOne (described : DescribedBy em x) :
    DescribedBy em.shiftRightOne (x / 2) := by
  have half := keptPart_shiftRightOne em
  unfold DescribedBy
  rw [half]
  obtain ⟨m, roundBit, stickyBit⟩ := em
  cases roundBit <;> cases stickyBit <;>
    simp only [DescribedBy, keptPart, Bool.toNat_false, Bool.toNat_true,
      Bool.false_eq_true, if_false, if_true, Nat.cast_zero, Nat.cast_one] at described <;>
    simp only [ExtendedMantissa.shiftRightOne, Bool.or_false, Bool.or_true, Bool.or_self,
      Bool.false_eq_true, if_false, if_true]
  · linarith
  · exact ⟨by linarith, by linarith⟩
  · exact ⟨by linarith, by linarith⟩
  · exact ⟨by linarith, by linarith⟩

theorem shiftRight (described : DescribedBy em x) (n : ℕ) :
    DescribedBy (em >>> n) (x / 2 ^ n) := by
  show DescribedBy (n.repeat ExtendedMantissa.shiftRightOne em) (x / 2 ^ n)
  induction n with
  | zero => simpa [Nat.repeat] using described
  | succ n ih =>
    rw [Nat.repeat, pow_succ, ← div_div]
    exact ih.shiftRightOne

end DescribedBy

/-- What is known of a number stays known when bits are shifted out. -/
theorem Describes.shiftToExponent {m : ℕ} {e target : ℤ} {accuracy : Accuracy}
    {r : ℚ} (describes : Describes m accuracy (r / 2 ^ e)) (up : e ≤ target) :
    DescribedBy (shiftToExponent m e accuracy target).1 (r / 2 ^ target) ∧
      (shiftToExponent m e accuracy target).2 = target := by
  obtain ⟨steps, rfl⟩ := Int.le.dest up
  have count : (e + steps - e).toNat = steps := by omega
  simp only [UnpackedFloat.shiftToExponent, count, and_true]
  rw [two_zpow_add, zpow_natCast, ← div_div]
  exact (DescribedBy.of_describes describes).shiftRight steps

/-! ## Scales -/

/-- The scale at which a mantissa with an exponent has 24 bits. -/
theorem targetExponent_eq (m : ℕ) (e : ℤ) :
    Format.binary32.targetExponent (totalExponent m e) =
      max (m.log2 + e - 23) (-149) := by
  show max ((m.log2 : ℤ) + 1 + e - (1 + 23 : ℕ)) (3 - 2 ^ (8 - 1) - (1 + 23 : ℕ)) = _
  norm_num
  omega

/-- A number is rounded at the scale of its whole part. -/
theorem rounds_of_describes {m n : ℕ} {e scale : ℤ} {accuracy : Accuracy} {r : ℚ}
    (describes : Describes m accuracy (r / 2 ^ e))
    (target : scale = max (m.log2 + e - 23) (-149)) (enough : e ≤ scale)
    (nearest : Nearest n (r / 2 ^ scale)) : Rounds r n scale where
  least := target ▸ le_max_right _ _
  below := by
    have few : m + 1 ≤ 2 ^ (m.log2 + 1) := Nat.lt_log2_self
    have few' : (m : ℚ) + 1 ≤ 2 ^ ((m.log2 : ℤ) + 1) := by exact_mod_cast few
    calc r < (m + 1) * 2 ^ e :=
          (div_lt_iff₀ (two_zpow_pos e)).mp describes.bounds.2
      _ ≤ 2 ^ ((m.log2 : ℤ) + 1) * 2 ^ e :=
          mul_le_mul_of_nonneg_right few' (two_zpow_pos e).le
      _ = 2 ^ ((m.log2 : ℤ) + 1 + e) := (two_zpow_add _ _).symm
      _ ≤ 2 ^ (scale + 24) := two_zpow_le.mpr (by omega)
  filled := by
    by_cases least : scale = -149
    · exact .inl least
    · refine .inr ?_
      -- without a mantissa, the exponent would be too small
      have nonzero : m ≠ 0 := by
        rintro rfl
        have zero : Nat.log2 0 = 0 := by decide
        omega
      have many : ((2 : ℕ) ^ m.log2 : ℕ) ≤ m := Nat.log2_self_le nonzero
      have many' : (2 : ℚ) ^ (m.log2 : ℤ) ≤ m := by exact_mod_cast many
      calc (2 : ℚ) ^ (scale + 23) = 2 ^ ((m.log2 : ℤ) + e) := by
            congr 1
            omega
        _ = 2 ^ (m.log2 : ℤ) * 2 ^ e := two_zpow_add _ _
        _ ≤ m * 2 ^ e := mul_le_mul_of_nonneg_right many' (two_zpow_pos e).le
        _ ≤ r := (le_div_iff₀ (two_zpow_pos e)).mp describes.bounds.1
  nearest := nearest

/-! ## Carries -/

/-- A rounded magnitude with a sign. A carry beyond 24 bits goes to the
exponent. -/
def carried (s : Sign) (n : ℕ) (scale : ℤ) : UnpackedFloat :=
  if some : n = 0 then .zero s
  else if n = 2 ^ 24 then .finite s (2 ^ 23) (scale + 1) (by decide)
  else .finite s n scale (Nat.pos_of_ne_zero some)

/-- The forms of a rounded magnitude. -/
theorem carried_cases (s : Sign) (n : ℕ) (scale : ℤ) :
    (n = 0 ∧ carried s n scale = .zero s) ∨
      (n = 2 ^ 24 ∧ carried s n scale = .finite s (2 ^ 23) (scale + 1) (by decide)) ∨
      ∃ pos, n ≠ 2 ^ 24 ∧ carried s n scale = .finite s n scale pos := by
  by_cases zero : n = 0
  · exact .inl ⟨zero, dif_pos zero⟩
  by_cases carry : n = 2 ^ 24
  · exact .inr (.inl ⟨carry, (dif_neg zero).trans (if_pos carry)⟩)
  · exact .inr (.inr ⟨Nat.pos_of_ne_zero zero, carry,
      (dif_neg zero).trans (if_neg carry)⟩)

/-- Nothing is shifted out of 24 bits. -/
theorem shiftToTargetExponent_of_lt {n : ℕ} {scale : ℤ} (bits : n < 2 ^ 24)
    (least : -149 ≤ scale) :
    shiftToTargetExponent .binary32 n scale .exact = (⟨n, false, false⟩, scale) := by
  have short : n.log2 ≤ 23 := by
    rcases Nat.eq_zero_or_pos n with rfl | pos
    · decide
    · exact Nat.le_of_lt_succ ((Nat.log2_lt pos.ne').mpr bits)
  have noShift : (max (n.log2 + scale - 23) (-149) - scale).toNat = 0 := by omega
  simp only [shiftToTargetExponent, targetExponent_eq, UnpackedFloat.shiftToExponent,
    noShift, Nat.cast_zero, add_zero]
  rfl

/-- A carry is shifted out. -/
theorem shiftToTargetExponent_carry {scale : ℤ} (least : -149 ≤ scale) :
    shiftToTargetExponent .binary32 (2 ^ 24) scale .exact =
      (⟨2 ^ 23, false, false⟩, scale + 1) := by
  have short : (2 ^ 24 : ℕ).log2 = 24 := by decide
  have one : (max (((24 : ℕ) : ℤ) + scale - 23) (-149) - scale).toNat = 1 := by omega
  simp only [shiftToTargetExponent, targetExponent_eq, short,
    UnpackedFloat.shiftToExponent, one]
  rfl

/-- The number with a mantissa and an exponent, without the bits that were
shifted out. -/
def ofShifted (s : Sign) (shifted : ExtendedMantissa × ℤ) : UnpackedFloat :=
  if none : shifted.1.mantissa = 0 then .zero s
  else .finite s shifted.1.mantissa shifted.2 (Nat.pos_of_ne_zero none)

/-- A mantissa is shifted, rounded, and shifted again. -/
theorem roundWithAccuracy_eq_ofShifted (s : Sign) (m : ℕ) (e : ℤ) (accuracy : Accuracy) :
    roundWithAccuracy .binary32 s m e accuracy =
      let first := shiftToTargetExponent .binary32 m e accuracy
      ofShifted s (shiftToTargetExponent .binary32 first.1.roundedMantissa first.2 .exact) :=
  rfl

/-- **Rounding of mantissas.** A mantissa with at least 24 bits, or as many as
the least scale leaves, and an accuracy are rounded to 24 bits. -/
theorem roundWithAccuracy_eq (s : Sign) {m : ℕ} {e : ℤ} {accuracy : Accuracy} {r : ℚ}
    (describes : Describes m accuracy (r / 2 ^ e))
    (enough : e ≤ max (m.log2 + e - 23) (-149)) :
    ∃ n, Rounds r n (max (m.log2 + e - 23) (-149)) ∧
      roundWithAccuracy .binary32 s m e accuracy =
        carried s n (max (m.log2 + e - 23) (-149)) := by
  generalize target : max (m.log2 + e - 23) (-149) = scale at enough ⊢
  obtain ⟨described, there⟩ := describes.shiftToExponent enough
  have first : shiftToTargetExponent .binary32 m e accuracy =
      UnpackedFloat.shiftToExponent m e accuracy scale := by
    rw [shiftToTargetExponent, targetExponent_eq, target]
  generalize UnpackedFloat.shiftToExponent m e accuracy scale = shifted at *
  obtain ⟨em, scale'⟩ := shifted
  obtain rfl : scale' = scale := there
  have rounds : Rounds r em.roundedMantissa scale' :=
    rounds_of_describes describes target.symm enough described.describes.nearest
  refine ⟨em.roundedMantissa, rounds, ?_⟩
  rw [roundWithAccuracy_eq_ofShifted, first]
  show ofShifted s (shiftToTargetExponent .binary32 em.roundedMantissa scale' .exact) = _
  generalize em.roundedMantissa = n at rounds ⊢
  rcases Nat.lt_or_eq_of_le rounds.le_carry with bits | rfl
  · rw [shiftToTargetExponent_of_lt bits rounds.least, ofShifted, carried]
    by_cases some : n = 0
    · rw [dif_pos some, dif_pos some]
    · rw [dif_neg some, dif_neg some, if_neg bits.ne]
  · rw [shiftToTargetExponent_carry rounds.least]
    rfl

end FieldMesh.Binary32
