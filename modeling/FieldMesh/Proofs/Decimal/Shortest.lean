import Mathlib.Tactic.IntervalCases
import Mathlib.Tactic.Ring
import FieldMesh.Decimal.Text

/-!
# Shortest decimals exist

Nine digits are always enough to name a single-precision number, so the search
for its shortest decimal finds one, and that is not zero unless the number is.

* `Interval.Reaches`: a power of ten is not above the value;
  `reaches_magnitude` says so of the first digit's;
* `Interval.onGrid?_isSome`: a grid that is finer than the interval is wide has
  a point in it;
* **main result**: `coefficient_shortest_pos`.
-/

namespace FieldMesh.Decimal

/-! ## Digits of natural numbers -/

theorem pow_le_of_length_toDigits {n : Nat} (positive : 0 < n) :
    10 ^ ((Nat.toDigits 10 n).length - 1) ≤ n := by
  by_contra small
  have less : n < 10 ^ ((Nat.toDigits 10 n).length - 1) := Nat.lt_of_not_le small
  by_cases one : (Nat.toDigits 10 n).length - 1 = 0
  · rw [one] at less
    omega
  · have short := (Nat.length_toDigits_le_iff (b := 10) (by decide)
      (Nat.pos_of_ne_zero one)).mpr less
    omega

/-- Only zero starts with a zero. -/
theorem head?_toDigits_ne {n : Nat} (positive : 0 < n) :
    (Nat.toDigits 10 n).head? ≠ some '0' := by
  induction n using Nat.strongRecOn with
  | ind n ih =>
    by_cases small : n < 10
    · rw [Nat.toDigits_of_lt_base small]
      interval_cases n <;> decide
    · have large := Nat.le_of_not_lt small
      have shorter : n / 10 < n := by omega
      have rest : 0 < n / 10 := by omega
      have first := ih _ shorter rest
      obtain ⟨c, others, digits⟩ := List.exists_cons_of_ne_nil
        (Nat.toDigits_ne_nil (b := 10) (n := n / 10))
      rw [digits] at first
      rw [Nat.toDigits_of_base_le (by decide) large, digits]
      exact first

/-! ## Intervals -/

namespace Interval

variable {i : Interval} {place : Int}

/-- A power of ten is not above the value. -/
def Reaches (i : Interval) (place : Int) : Prop :=
  i.denominator * 10 ^ place.toNat ≤ i.value * 10 ^ (-place).toNat

theorem reaches_iff : i.Reaches place ↔
    (i.inUnits place).denominator ≤ (i.inUnits place).value := Iff.rfl

/-- Lower powers of ten are not above the value either. In units of the lower
one, the value is as many times ten. -/
theorem Reaches.lower (reaches : i.Reaches place) (n : Nat) :
    10 ^ n * (i.inUnits (place - n)).denominator ≤
      (i.inUnits (place - n)).value := by
  show 10 ^ n * (i.denominator * 10 ^ (place - n).toNat) ≤
    i.value * 10 ^ (-(place - n)).toNat
  unfold Reaches at reaches
  by_cases whole : (n : Int) ≤ place
  · -- both powers are whole numbers
    have up : place.toNat = n + (place - n).toNat := by omega
    have zero : (-(place - n)).toNat = 0 := by omega
    have zero' : (-place).toNat = 0 := by omega
    rw [up, zero', Nat.pow_add] at reaches
    rw [zero]
    calc 10 ^ n * (i.denominator * 10 ^ (place - n).toNat)
        = i.denominator * (10 ^ n * 10 ^ (place - n).toNat) := by ring
      _ ≤ i.value * 10 ^ 0 := reaches
  · have down : (-(place - n)).toNat + place.toNat = n + (-place).toNat := by omega
    have zero : (place - n).toNat = 0 := by omega
    rw [zero]
    refine Nat.le_of_mul_le_mul_right ?_ (Nat.pow_pos (n := place.toNat) (by decide :
      0 < 10))
    calc 10 ^ n * (i.denominator * 10 ^ 0) * 10 ^ place.toNat
        = 10 ^ n * (i.denominator * 10 ^ place.toNat) := by ring
      _ ≤ 10 ^ n * (i.value * 10 ^ (-place).toNat) := Nat.mul_le_mul_left _ reaches
      _ = i.value * 10 ^ (n + (-place).toNat) := by ring
      _ = i.value * 10 ^ (-(place - n)).toNat * 10 ^ place.toNat := by
        rw [← down]
        ring

/-- The first digit's power of ten is not above the value. -/
theorem reaches_magnitude (large : i.denominator ≤ i.value * 10 ^ 46) :
    i.Reaches i.magnitude := by
  unfold magnitude
  simp only
  split
  · split
    · next k found =>
      have enough := List.find?_some found
      simp only [decide_eq_true_eq] at enough
      show i.denominator * 10 ^ (-(k : Int)).toNat ≤
        i.value * 10 ^ (-(-(k : Int))).toNat
      have zero : (-(k : Int)).toNat = 0 := by omega
      have same : (-(-(k : Int))).toNat = k := by omega
      rw [zero, same, Nat.pow_zero, Nat.mul_one]
      exact enough
    · show i.denominator * 10 ^ 0 ≤ i.value * 10 ^ 46
      rw [Nat.pow_zero, Nat.mul_one]
      exact large
  · next nonzero =>
    have whole := pow_le_of_length_toDigits (Nat.pos_of_ne_zero nonzero)
    let digits := (Nat.toDigits 10 (i.value / i.denominator)).length
    have filled : 0 < digits := Nat.length_toDigits_pos
    show i.denominator * 10 ^ ((digits : Int) - 1).toNat ≤
      i.value * 10 ^ (-((digits : Int) - 1)).toNat
    have up : ((digits : Int) - 1).toNat = digits - 1 := by omega
    have zero : (-((digits : Int) - 1)).toNat = 0 := by omega
    rw [up, zero, Nat.pow_zero, Nat.mul_one]
    exact (Nat.mul_le_mul_left _ whole).trans (Nat.mul_div_le _ _)

/-- A point of a grid is at least one, if the unit is not above the value. -/
theorem coefficient_pos_of_onGrid? {tie : Tie} {d : Decimal}
    (positive : 0 < i.denominator) (reaches : i.Reaches place)
    (found : i.onGrid? tie place = some d) : 0 < d.coefficient := by
  have unit : 0 < (i.inUnits place).denominator :=
    Nat.mul_pos positive (Nat.pow_pos (by decide))
  have floor : 0 < (i.inUnits place).value / (i.inUnits place).denominator :=
    Nat.div_pos (reaches_iff.mp reaches) unit
  unfold onGrid? at found
  simp only at found
  split at found
  · cases found
    simp only
    split
    · exact Nat.succ_pos _
    · exact floor
  · cases found
    exact floor
  · cases found
    exact Nat.succ_pos _
  · cases found

/-- What lies strictly between the bounds lies in the interval. -/
theorem contains_of_lt {n : Nat} (low : i.low < n * i.denominator)
    (high : n * i.denominator < i.high) : i.contains n = true := by
  unfold contains
  simp only
  split
  · simp [Nat.le_of_lt low, Nat.le_of_lt high]
  · simp [low, high]

/-- A grid has a point in every interval that is wider than its unit. -/
theorem onGrid?_isSome (tie : Tie)
    (unit : 0 < (i.inUnits place).denominator)
    (low : (i.inUnits place).low < (i.inUnits place).value)
    (high : (i.inUnits place).value < (i.inUnits place).high)
    (fine : (i.inUnits place).low + (i.inUnits place).denominator <
      (i.inUnits place).high) : (i.onGrid? tie place).isSome := by
  let scaled := i.inUnits place
  let floor := scaled.value / scaled.denominator
  have below : floor * scaled.denominator ≤ scaled.value := Nat.div_mul_le_self _ _
  have above : scaled.value < (floor + 1) * scaled.denominator :=
    (Nat.div_lt_iff_lt_mul unit).mp (Nat.lt_succ_self floor)
  have next : (floor + 1) * scaled.denominator =
      floor * scaled.denominator + scaled.denominator := Nat.succ_mul _ _
  have either : scaled.contains floor = true ∨ scaled.contains (floor + 1) = true := by
    by_cases inside : scaled.low < floor * scaled.denominator
    · exact .inl (contains_of_lt inside (Nat.lt_of_le_of_lt below high))
    · refine .inr (contains_of_lt (Nat.lt_trans low above) ?_)
      rw [next]
      exact Nat.lt_of_le_of_lt (Nat.add_le_add_right (Nat.not_lt.mp inside) _) fine
  unfold onGrid?
  simp only
  split
  · rfl
  · rfl
  · rfl
  · next no no' =>
    rcases either with yes | yes
    · exact absurd (yes.symm.trans no) (by decide)
    · exact absurd (yes.symm.trans no') (by decide)

end Interval

/-! ## Single-precision numbers -/

/-- The numbers that round to one are not too few, compared with it. -/
theorem rounding_wide {mantissa : Nat} (positive : 0 < mantissa)
    (bounded : mantissa < 10 ^ 8) (scale : Nat) :
    let i := Interval.rounding mantissa scale
    i.low < i.value ∧ i.value < i.high ∧ 4 ≤ i.value ∧
      i.value < 10 ^ 8 * (i.high - i.low) := by
  have unit : 0 < 2 ^ scale := Nat.pow_pos (by decide)
  have least : 2 ^ scale ≤ mantissa * 2 ^ scale := Nat.le_mul_of_pos_left _ positive
  have most : mantissa * 2 ^ scale < 10 ^ 8 * 2 ^ scale :=
    Nat.mul_lt_mul_of_pos_right bounded unit
  simp only [Interval.rounding, Nat.shiftLeft_eq, Nat.mul_assoc]
  split
  · next boundary =>
    rw [boundary.1, Binary32.leastNormal] at *
    omega
  · omega

/-- **Nine digits suffice.** The shortest decimal of a number that is not zero
is not zero. -/
theorem coefficient_shortest_pos (tie : Tie) {mantissa : Nat}
    (positive : 0 < mantissa) (bounded : mantissa < 10 ^ 8) (scale : Nat) :
    0 < (shortest tie mantissa scale).coefficient := by
  let i := Interval.rounding mantissa scale
  obtain ⟨low, high, least, wide⟩ := rounding_wide positive bounded scale
  have denominator : i.denominator = 2 ^ 151 := Nat.one_shiftLeft 151
  have positive : 0 < i.denominator := by
    rw [denominator]
    exact Nat.pow_pos (by decide)
  have reaches : i.Reaches i.magnitude := by
    refine Interval.reaches_magnitude ?_
    rw [denominator]
    calc 2 ^ 151 ≤ 4 * 10 ^ 46 := by decide
      _ ≤ i.value * 10 ^ 46 := Nat.mul_le_mul_right _ least
  have lower (n : Nat) : i.Reaches (i.magnitude - n) :=
    (Nat.le_mul_of_pos_left _ (Nat.pow_pos (by decide))).trans (reaches.lower n)
  -- with nine digits the unit is below the width of the interval
  have finest : (i.onGrid? tie (i.magnitude - (8 : Nat))).isSome := by
    have unit := reaches.lower 8
    let up := 10 ^ (-(i.magnitude - (8 : Nat))).toNat
    have pos : 0 < up := Nat.pow_pos (by decide)
    have narrow : i.value * up < 10 ^ 8 * (i.high - i.low) * up :=
      Nat.mul_lt_mul_of_pos_right wide pos
    have wider : (i.inUnits (i.magnitude - (8 : Nat))).denominator <
        (i.high - i.low) * up := by
      rw [Nat.mul_assoc] at narrow
      exact Nat.lt_of_mul_lt_mul_left (Nat.lt_of_le_of_lt unit narrow)
    refine Interval.onGrid?_isSome tie
      (Nat.mul_pos positive (Nat.pow_pos (by decide)))
      (Nat.mul_lt_mul_of_pos_right low pos)
      (Nat.mul_lt_mul_of_pos_right high pos) ?_
    rw [Nat.sub_mul] at wider
    exact Nat.add_lt_of_lt_sub' wider
  obtain ⟨d, found⟩ : ∃ d, ((List.range 9).findSome? fun n : Nat =>
      i.onGrid? tie (i.magnitude - (n : Int))) = some d := by
    refine Option.isSome_iff_exists.mp (List.findSome?_isSome_iff.mpr ?_)
    exact ⟨8, List.mem_range.mpr (by decide), finest⟩
  obtain ⟨n, -, point⟩ := List.exists_of_findSome?_eq_some found
  have same : shortest tie mantissa scale = d := by
    show (List.findSome? _ _).getD _ = d
    rw [found, Option.getD_some]
  rw [same]
  exact Interval.coefficient_pos_of_onGrid? positive (lower n) point

/-! ## Trimming -/

theorem ofDigitChars_zeros (n : Nat) :
    Nat.ofDigitChars 10 (List.replicate n '0') 0 = 0 := by
  induction n with
  | zero => rfl
  | succ n ih =>
    rw [List.replicate_succ, Nat.ofDigitChars, List.foldl_cons]
    exact ih

/-- Not all digits of a number are zeros at its end. -/
theorem zeros_lt_length {n : Nat} (positive : 0 < n) :
    ((Nat.toDigits 10 n).reverse.takeWhile (· == '0')).length <
      (Nat.toDigits 10 n).length := by
  let digits := (Nat.toDigits 10 n).reverse
  have prefix_ : digits.takeWhile (· == '0') <+: digits := List.takeWhile_prefix _
  have short := prefix_.length_le
  rw [List.length_reverse] at short
  refine Nat.lt_of_le_of_ne short fun same => ?_
  have all : digits.takeWhile (· == '0') = digits :=
    prefix_.eq_of_length (by rw [same, List.length_reverse])
  have zeros : ∀ c ∈ digits, c = '0' := by
    intro c member
    rw [← all] at member
    simpa using List.all_eq_true.mp List.all_takeWhile c member
  have replicated : Nat.toDigits 10 n =
      List.replicate (Nat.toDigits 10 n).length '0' :=
    List.eq_replicate_iff.mpr
      ⟨rfl, fun c member => zeros c (List.mem_reverse.mpr member)⟩
  have value := Nat.ofDigitChars_ten_toDigits (n := n)
  rw [replicated, ofDigitChars_zeros] at value
  omega

/-- Zeros at the end are dropped, but the number stays. -/
theorem coefficient_trimmed_pos {d : Decimal} (positive : 0 < d.coefficient) :
    0 < d.trimmed.coefficient := by
  have fewer := zeros_lt_length positive
  have least := pow_le_of_length_toDigits positive
  refine Nat.div_pos ?_ (Nat.pow_pos (by decide))
  exact (Nat.pow_le_pow_right (by decide) (by omega)).trans least

end FieldMesh.Decimal
