import FieldMesh.Proofs.Binary32.Rounding

/-!
# Stored numbers

Numbers are stored with 24 bits of mantissa. What is too large for the
exponent becomes infinite.

* `Stored`: mantissas and exponents of stored numbers;
* `Canonical`: unpacked numbers that can be stored, up to their size;
* `settled`: what is found again after storing; `settled_finite`;
* `canonical_unpack`, `canonical_carried`: numbers that are loaded, and those
  that were rounded;
* `settled_unpack`: what is loaded is found again.
-/

namespace FieldMesh.Binary32

open Float.Model Float.Model.UnpackedFloat

/-! ## Mantissas and exponents -/

/-- A mantissa of 24 bits, or of fewer with the least exponent. -/
structure Stored (m : ℕ) (e : ℤ) : Prop where
  bits : m < 2 ^ 24
  least : -149 ≤ e
  filled : e = -149 ∨ 2 ^ 23 ≤ m

/-- Finite numbers with a mantissa and an exponent of stored numbers. -/
def Canonical : UnpackedFloat → Prop
  | .finite _ m e _ => Stored m e
  | _ => True

theorem finite_congr {s : Sign} {m m' : ℕ} {e e' : ℤ} {some : 0 < m} {some' : 0 < m'}
    (mantissa : m = m') (exponent : e = e') :
    UnpackedFloat.finite s m e some = .finite s m' e' some' := by
  subst mantissa exponent
  rfl

theorem canonical_carried {r : ℚ} {n : ℕ} {scale : ℤ} (rounds : Rounds r n scale)
    (s : Sign) : Canonical (carried s n scale) := by
  have least := rounds.least
  rcases carried_cases s n scale with ⟨-, form⟩ | ⟨-, form⟩ | ⟨pos, other, form⟩ <;>
    rw [form]
  · trivial
  · exact ⟨by decide, by omega, .inr (Nat.le_refl _)⟩
  · exact ⟨Nat.lt_of_le_of_ne rounds.le_carry other, least, rounds.ge_filled⟩

/-! ## Storing -/

/-- What is found again after a number was stored. -/
def settled (f : UnpackedFloat) : UnpackedFloat :=
  UnpackedFloat.unpack .binary32 (UnpackedFloat.pack .binary32 f)

theorem ofBitVec_unpackSign (s : Sign) (exponent : BitVec 8) (mantissa : BitVec 23) :
    Sign.ofBitVec (unpackSign (packComponents .binary32 s exponent mantissa)) = s := by
  have bit : unpackSign (packComponents .binary32 s exponent mantissa) = s.toBitVec := by
    show (s.toBitVec ++ exponent ++ mantissa).extractLsb' 31 1 = s.toBitVec
    rw [BitVec.extractLsb'_append_eq_of_le (by omega),
      BitVec.extractLsb'_append_eq_of_le (by omega)]
    cases s <;> rfl
  rw [bit]
  cases s <;> rfl

theorem toNat_one_append (mantissa : BitVec 23) :
    (1#1 ++ mantissa).toNat = 2 ^ 23 + mantissa.toNat := by
  rw [BitVec.toNat_append, ← Nat.shiftLeft_add_eq_or_of_lt mantissa.isLt]
  rfl

/-- The number with the given parts. -/
def ofParts (s : Sign) (exponent : BitVec 8) (mantissa : BitVec 23) : UnpackedFloat :=
  if exponent = -1#8 then
    if mantissa = 0#23 then .infinity s else .notANumber
  else if exponent = 0#8 then
    if zero : mantissa = 0#23 then .zero s
    else .finite s mantissa.toNat (-149)
      (Nat.pos_of_ne_zero fun same => zero (BitVec.eq_of_toNat_eq same))
  else .finite s (2 ^ 23 + mantissa.toNat) (exponent.toNat - 150) (by omega)

/-- What is loaded has the parts that are stored. -/
theorem unpack_eq (bits : BitVec 32) :
    UnpackedFloat.unpack .binary32 bits =
      ofParts (Sign.ofBitVec (@unpackSign .binary32 bits))
        (@unpackExponent .binary32 bits) (@unpackMantissa .binary32 bits) := by
  unfold UnpackedFloat.unpack ofParts
  by_cases ones : @unpackExponent .binary32 bits = -1#8
  · rw [if_pos ones]
    exact (if_pos ones).symm
  by_cases zeros : @unpackExponent .binary32 bits = 0#8
  · rw [if_neg ones, if_pos zeros]
    refine Eq.trans ?_ ((if_neg ones).trans (if_pos zeros)).symm
    by_cases none : @unpackMantissa .binary32 bits = 0#23
    · rw [dif_pos none, dif_pos none]
    · rw [dif_neg none, dif_neg none]
      refine finite_congr rfl ?_
      rw [zeros]
      rfl
  · rw [if_neg ones, if_neg zeros]
    refine Eq.trans (finite_congr ?_ ?_) ((if_neg ones).trans (if_neg zeros)).symm
    · exact toNat_one_append _
    · rfl

theorem unpack_packComponents (s : Sign) (exponent : BitVec 8) (mantissa : BitVec 23) :
    UnpackedFloat.unpack .binary32 (packComponents .binary32 s exponent mantissa) =
      ofParts s exponent mantissa := by
  rw [unpack_eq, ofBitVec_unpackSign, unpackExponent_packComponents,
    unpackMantissa_packComponents]

theorem settled_zero (s : Sign) : settled (.zero s) = .zero s := by
  cases s <;> rfl

theorem settled_infinity (s : Sign) : settled (.infinity s) = .infinity s := by
  cases s <;> rfl

/-- Numbers with 24 bits are stored without the highest of them. -/
theorem ofParts_normal {s : Sign} {m : ℕ} {e : ℤ} {pos : 0 < m} (stored : Stored m e)
    (many : 2 ^ 23 ≤ m) (small : e ≤ 104) :
    ofParts s (BitVec.ofNat 8 (e + 150).toNat) (BitVec.ofNat 23 m) = .finite s m e pos := by
  obtain ⟨bits, least, -⟩ := stored
  have mantissa : (BitVec.ofNat 23 m).toNat = m % 2 ^ 23 := BitVec.toNat_ofNat ..
  have exponent : (BitVec.ofNat 8 (e + 150).toNat).toNat = (e + 150).toNat := by
    rw [BitVec.toNat_ofNat]
    omega
  have ones : BitVec.ofNat 8 (e + 150).toNat ≠ -1#8 := by
    intro same
    have full : (-1#8).toNat = 255 := rfl
    rw [same] at exponent
    omega
  have zeros : BitVec.ofNat 8 (e + 150).toNat ≠ 0#8 := by
    intro same
    have zero : (0#8).toNat = 0 := rfl
    rw [same] at exponent
    omega
  rw [ofParts, if_neg ones, if_neg zeros]
  refine finite_congr ?_ ?_
  · rw [mantissa]
    omega
  · rw [exponent]
    omega

/-- Numbers with fewer bits are stored as they are. -/
theorem ofParts_subnormal {s : Sign} {m : ℕ} {pos : 0 < m} (few : m < 2 ^ 23) :
    ofParts s 0#8 (BitVec.ofNat 23 m) = .finite s m (-149) pos := by
  have mantissa : (BitVec.ofNat 23 m).toNat = m := by
    rw [BitVec.toNat_ofNat]
    omega
  have rest : BitVec.ofNat 23 m ≠ 0#23 := by
    intro same
    have zero : (0#23).toNat = 0 := rfl
    rw [same] at mantissa
    omega
  have ones : (0#8 : BitVec 8) ≠ -1#8 := by decide
  rw [ofParts, if_neg ones, if_pos rfl, dif_neg rest]
  exact finite_congr mantissa rfl

/-- How finite numbers are stored. -/
theorem pack_finite (s : Sign) (m : ℕ) (e : ℤ) (pos : 0 < m) :
    UnpackedFloat.pack .binary32 (.finite s m e pos) =
      if 256 ≤ (e + 150).toNat + 1 then packedInfinity .binary32 s
      else if m.log2 + 1 = 24 then
        packComponents .binary32 s (BitVec.ofNat 8 (e + 150).toNat) (BitVec.ofNat 23 m)
      else packComponents .binary32 s 0#8 (BitVec.ofNat 23 m) := by
  have biased : (e + 150).toNat = (e + 127 + 23).toNat := by omega
  rw [biased]
  rfl

/-- Stored numbers are found again, unless they are too large. -/
theorem settled_finite {s : Sign} {m : ℕ} {e : ℤ} {pos : 0 < m} (stored : Stored m e) :
    settled (.finite s m e pos) =
      if e ≤ 104 then .finite s m e pos else .infinity s := by
  have least := stored.least
  rw [settled, pack_finite]
  by_cases large : e ≤ 104
  · rw [if_pos large, if_neg (by omega)]
    by_cases normal : m.log2 + 1 = 24
    · have many : 2 ^ 23 ≤ m := by
        have log : m.log2 = 23 := Nat.succ.inj normal
        exact log ▸ Nat.log2_self_le pos.ne'
      rw [if_pos normal, unpack_packComponents]
      exact ofParts_normal stored many large
    · have few : m < 2 ^ 23 := by
        by_contra many
        have log : 23 ≤ m.log2 := (Nat.le_log2 pos.ne').mpr (Nat.not_lt.mp many)
        have log' : m.log2 < 24 := (Nat.log2_lt pos.ne').mpr stored.bits
        omega
      obtain rfl : e = -149 := stored.filled.resolve_right (Nat.not_le.mpr few)
      rw [if_neg normal, unpack_packComponents]
      exact ofParts_subnormal few
  · rw [if_neg large, if_pos (by omega)]
    exact settled_infinity s

/-! ## Loading -/

/-- Unpacked numbers that are stored, and not too large. -/
def Loaded : UnpackedFloat → Prop
  | .finite _ m e _ => Stored m e ∧ e ≤ 104
  | _ => True

theorem loaded_ofParts (s : Sign) (exponent : BitVec 8) (mantissa : BitVec 23) :
    Loaded (ofParts s exponent mantissa) := by
  have fraction : mantissa.toNat < 2 ^ 23 := mantissa.isLt
  have biased : exponent.toNat < 256 := exponent.isLt
  unfold ofParts
  by_cases ones : exponent = -1#8
  · rw [if_pos ones]
    by_cases zero : mantissa = 0#23
    · rw [if_pos zero]
      trivial
    · rw [if_neg zero]
      trivial
  by_cases zeros : exponent = 0#8
  · rw [if_neg ones, if_pos zeros]
    by_cases zero : mantissa = 0#23
    · rw [dif_pos zero]
      trivial
    · rw [dif_neg zero]
      exact ⟨⟨by omega, le_refl _, .inl rfl⟩, by decide⟩
  · rw [if_neg ones, if_neg zeros]
    have nonzero : exponent.toNat ≠ 0 := fun zero => zeros (BitVec.eq_of_toNat_eq zero)
    have small : exponent.toNat ≠ 255 := fun full => ones (BitVec.eq_of_toNat_eq full)
    exact ⟨⟨by omega, by omega, .inr (Nat.le_add_right _ _)⟩, by omega⟩

theorem loaded_unpack (bits : BitVec 32) :
    Loaded (UnpackedFloat.unpack .binary32 bits) := by
  rw [unpack_eq]
  exact loaded_ofParts _ _ _

/-- What is loaded is of the form in which it is stored. -/
theorem canonical_unpack (bits : BitVec 32) :
    Canonical (UnpackedFloat.unpack .binary32 bits) := by
  have loaded := loaded_unpack bits
  cases unpacked : UnpackedFloat.unpack .binary32 bits with
  | notANumber => trivial
  | infinity s => trivial
  | zero s => trivial
  | finite s m e some =>
    rw [unpacked] at loaded
    exact loaded.1

/-- What is loaded is found again. -/
theorem settled_unpack (bits : BitVec 32) :
    settled (UnpackedFloat.unpack .binary32 bits) =
      UnpackedFloat.unpack .binary32 bits := by
  have loaded := loaded_unpack bits
  cases unpacked : UnpackedFloat.unpack .binary32 bits with
  | notANumber => rfl
  | infinity s => exact settled_infinity s
  | zero s => exact settled_zero s
  | finite s m e some =>
    rw [unpacked] at loaded
    rw [settled_finite loaded.1, if_pos loaded.2]

end FieldMesh.Binary32
