import FieldMesh.Decimal.Reading

/-!
# Numbers read without a sign

What digits stand for is never below zero, nor is it a negative zero.

* `signOf`: the sign of an unpacked number, kept by packing and unpacking, and
  by the products and quotients that a decimal is read with;
* **main result**: `isNegative_value`.
-/

namespace FieldMesh.Decimal

open Float.Model Float.Model.UnpackedFloat

/-! ## Signs of unpacked numbers -/

/-- The sign of an unpacked number. What is not a number has none. -/
def signOf : UnpackedFloat → Sign
  | .infinity s | .zero s | .finite s _ _ _ => s
  | .notANumber => .positive

/-- A choice between numbers of one sign has this sign. -/
theorem signOf_ite {p : Prop} [Decidable p] {s : Sign} {one other : UnpackedFloat}
    (first : signOf one = s) (second : signOf other = s) :
    signOf (if p then one else other) = s := by
  by_cases h : p
  · rw [if_pos h]
    exact first
  · rw [if_neg h]
    exact second

theorem signOf_dite {p : Prop} [Decidable p] {s : Sign}
    {one : p → UnpackedFloat} {other : ¬ p → UnpackedFloat}
    (first : ∀ h, signOf (one h) = s) (second : ∀ h, signOf (other h) = s) :
    signOf (dite p one other) = s := by
  by_cases h : p
  · rw [dif_pos h]
    exact first h
  · rw [dif_neg h]
    exact second h

theorem signOf_roundWithAccuracy (format : Format) (s : Sign) (mantissa : Nat)
    (exponent : Int) (accuracy : Accuracy) :
    signOf (roundWithAccuracy format s mantissa exponent accuracy) = s :=
  signOf_dite (fun _ => rfl) (fun _ => rfl)

/-- A product of numbers without a sign has none. -/
theorem signOf_mul {format : Format} {a b : UnpackedFloat}
    (first : signOf a = .positive) (second : signOf b = .positive) :
    signOf (UnpackedFloat.mul format a b) = .positive := by
  cases a <;> cases b <;> cases first <;> cases second <;>
    first
    | rfl
    | exact signOf_roundWithAccuracy _ _ _ _ _

/-- A quotient of numbers without a sign has none. -/
theorem signOf_div {format : Format} {a b : UnpackedFloat}
    (first : signOf a = .positive) (second : signOf b = .positive) :
    signOf (UnpackedFloat.div format a b) = .positive := by
  cases a <;> cases b <;> cases first <;> cases second <;>
    first
    | rfl
    | exact signOf_roundWithAccuracy _ _ _ _ _

theorem signOf_ofScientific (format : Format) (mantissa : Nat) (exponent : Int) :
    signOf (UnpackedFloat.ofScientific format mantissa exponent) = .positive := by
  unfold UnpackedFloat.ofScientific
  refine signOf_dite (fun _ => rfl) fun _ => ?_
  -- numbers that are too large or too small are rounded at once
  refine signOf_ite rfl (signOf_ite rfl (signOf_ite ?_ ?_))
  · exact signOf_mul rfl rfl
  · exact signOf_div rfl rfl

theorem signOf_ofNat (format : Format) (n : Nat) :
    signOf (UnpackedFloat.ofNat format n) = .positive := by
  unfold UnpackedFloat.ofNat UnpackedFloat.ofInt UnpackedFloat.normalize
  split
  · next below =>
    rw [Int.compare_eq_lt] at below
    omega
  · rfl
  · exact signOf_roundWithAccuracy _ _ _ _ _

/-! ## Bits -/

/-- A number without a sign, by its bits. -/
def Plain (x : Float32) : Prop := x.toBits.toNat < Binary32.signBit

theorem Plain.not_negative {x : Float32} (plain : Plain x) :
    Binary32.isNegative x = false :=
  decide_eq_false (Nat.not_le.mpr plain)

theorem packComponents_lt (exponent : BitVec 8) (mantissa : BitVec 23) :
    (packComponents .binary32 .positive exponent mantissa).toNat <
      Binary32.signBit := by
  have high : exponent.toNat <<< 23 < 2 ^ 31 := by
    rw [Nat.shiftLeft_eq]
    have := exponent.isLt
    omega
  have low : mantissa.toNat < 2 ^ 31 := Nat.lt_trans mantissa.isLt (by decide)
  show (0#1 ++ exponent ++ mantissa).toNat < 2 ^ 31
  rw [BitVec.toNat_append, BitVec.toNat_append]
  have noSign : (0#1).toNat <<< 8 ||| exponent.toNat = exponent.toNat := by simp
  rw [noSign]
  exact Nat.or_lt_two_pow high low

/-- Packing keeps the sign. -/
theorem plain_pack {f : UnpackedFloat} (positive : signOf f = .positive) :
    Plain ⟨Float32.Model.pack f⟩ := by
  show (UnpackedFloat.pack .binary32 f).toNat < Binary32.signBit
  unfold UnpackedFloat.pack
  split
  · exact packComponents_lt _ _
  · cases positive
    exact packComponents_lt _ _
  · cases positive
    exact packComponents_lt _ _
  · cases positive
    simp only
    split
    · exact packComponents_lt _ _
    split
    · exact packComponents_lt _ _
    · exact packComponents_lt _ _

/-- Unpacking keeps the sign. -/
theorem Plain.signOf_unpack {x : Float32} (plain : Plain x) :
    signOf x.toModel.unpack = .positive := by
  have clear : @unpackSign .binary32 x.toBits.toBitVec = 0#1 := by
    refine BitVec.eq_of_toNat_eq ?_
    show (x.toBits.toNat >>> 31) % 2 ^ 1 = 0
    have noSign : x.toBits.toNat >>> 31 = 0 := by
      rw [Nat.shiftRight_eq_div_pow]
      exact Nat.div_eq_of_lt plain
    rw [noSign]
  have sign : Sign.ofBitVec (@unpackSign .binary32 x.toBits.toBitVec) =
      .positive := by
    rw [clear]
    rfl
  show signOf (UnpackedFloat.unpack .binary32 x.toBits.toBitVec) = .positive
  unfold UnpackedFloat.unpack
  refine signOf_ite (signOf_ite sign rfl) (signOf_ite ?_ sign)
  exact signOf_dite (fun _ => sign) fun _ => sign

theorem Plain.mul {x y : Float32} (first : Plain x) (second : Plain y) :
    Plain (x * y) :=
  plain_pack (signOf_mul first.signOf_unpack second.signOf_unpack)

theorem Plain.div {x y : Float32} (first : Plain x) (second : Plain y) :
    Plain (x / y) :=
  plain_pack (signOf_div first.signOf_unpack second.signOf_unpack)

/-! ## Finite numbers -/

/-- A finite number has the parts of one. -/
theorem parts_of_isFinite {x : Float32} (finite : x.isFinite = true) :
    ∃ mantissa scale,
      Binary32.parts x = .finite (Binary32.isNegative x) mantissa scale := by
  -- an exponent of ones belongs to what is infinite or not a number
  have biased : x.toBits.toNat / Binary32.leastNormal % 256 ≠ 255 := by
    intro full
    have exponent : @unpackExponent .binary32 x.toBits.toBitVec = -1#8 := by
      refine BitVec.eq_of_toNat_eq ?_
      show (x.toBits.toNat >>> 23) % 2 ^ 8 = 255
      rw [Nat.shiftRight_eq_div_pow]
      exact full
    have infinite : (UnpackedFloat.unpack .binary32
        x.toBits.toBitVec).isFinite = false := by
      show UnpackedFloat.isFinite
        (if @unpackExponent .binary32 x.toBits.toBitVec = -1#8 then _ else _) =
          false
      rw [if_pos exponent]
      split <;> rfl
    exact Bool.false_ne_true (infinite.symm.trans finite)
  unfold Binary32.parts
  simp only
  rw [if_neg biased]
  split
  · exact ⟨_, _, rfl⟩
  · exact ⟨_, _, rfl⟩

/-! ## Decimals -/

theorem plain_powerOfTen (e : Fin 11) :
    Plain Float32.exactlyRepresentablePowersOfTen[e] := by
  revert e
  unfold Plain
  decide

theorem plain_ofScientific (mantissa : Nat) (negative : Bool) (exponent : Nat) :
    Plain (Float32.ofScientific mantissa negative exponent) := by
  unfold Float32.ofScientific
  split
  · next small =>
    have power := plain_powerOfTen ⟨exponent, Nat.lt_succ_of_le small.2⟩
    have digits : Plain mantissa.toUInt64.toFloat32 :=
      plain_pack (signOf_ofNat _ _)
    simp only
    split
    · exact digits.div power
    · exact digits.mul power
  · exact plain_pack (signOf_ofScientific _ _ _)

theorem plain_nearest (coefficient : Nat) (place : Int) :
    Plain (nearest coefficient place) := by
  unfold nearest
  split
  · show Plain (Float32.ofScientific _ _ _)
    exact plain_ofScientific _ _ _
  simp only
  split
  · unfold Plain
    decide
  split
  · exact plain_ofScientific _ _ _
  split
  · exact plain_ofScientific _ _ _
  · exact plain_ofScientific _ _ _

/-- **No sign.** Digits with a point stand for a number that is not negative,
not even a zero that is. -/
theorem isNegative_value (point : Point) (exponent : Int) :
    Binary32.isNegative (point.value exponent) = false :=
  (plain_nearest _ _).not_negative

end FieldMesh.Decimal
