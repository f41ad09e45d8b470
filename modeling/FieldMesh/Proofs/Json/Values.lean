import Mathlib.Data.List.Nodup
import FieldMesh.Json.Decode
import FieldMesh.Proofs.Decimal.Shortest
import FieldMesh.Proofs.Json.RoundTrip

/-!
# Values in documents

What numbers, vectors, texts and records are stored as is readable, and
decoding gives natural numbers and fields again.

* `standard_numeral`: numbers are written as documents want them;
* `natural?_ofNat`: natural numbers are decoded again;
* `ReadsBack`: so is a single-precision number;
* `members?_ofFields`: so are the fields of a record, by their names.
-/

namespace FieldMesh.Json

open FieldMesh.Decimal

/-! ## Written numbers -/

theorem isDigit_of_mem_toDigits {n : Nat} {c : Char}
    (member : c ∈ Nat.toDigits 10 n) : c.isDigit = true :=
  Nat.isDigit_of_mem_toDigits (by decide) (by decide) member

theorem isDigit_of_mem_replicate {n : Nat} {c : Char}
    (member : c ∈ List.replicate n '0') : c.isDigit = true := by
  rw [List.eq_of_mem_replicate member]
  rfl

/-- Digits that do not start with a zero, in front of a point. -/
theorem standard_of_digits {n : Numeral} (filled : n.whole ≠ [])
    (whole : ∀ c ∈ n.whole, c.isDigit = true) (first : n.whole.head? ≠ some '0')
    (fraction : ∀ c ∈ n.fraction, c.isDigit = true) : Standard n :=
  ⟨filled, whole, fun zero => absurd zero first, fraction⟩

/-- A zero in front of a point. -/
theorem standard_of_zero {n : Numeral} (zero : n.whole = ['0'])
    (fraction : ∀ c ∈ n.fraction, c.isDigit = true) : Standard n := by
  refine ⟨?_, ?_, ?_, fraction⟩ <;> rw [zero]
  · nofun
  · intro c member
    cases List.mem_singleton.mp member
    rfl
  · exact fun _ => Nat.le_refl 1

theorem head?_take {l : List α} {n : Nat} (pos : 0 < n) :
    (l.take n).head? = l.head? := by
  cases l with
  | nil => simp
  | cons a rest =>
    cases n with
    | zero => exact absurd pos (Nat.lt_irrefl 0)
    | succ n => rfl

section

variable {d : Decimal} (positive : 0 < d.coefficient)

include positive

theorem standard_positional (style : Style)
    (digits : ∀ c ∈ style.afterWhole, c.isDigit = true) (negative : Bool) :
    Standard (positionalNumeral style negative d) := by
  have filled : d.digits ≠ [] := Nat.toDigits_ne_nil
  have first : d.digits.head? ≠ some '0' := head?_toDigits_ne positive
  unfold positionalNumeral
  simp only
  split
  · refine standard_of_zero rfl fun c member => ?_
    rcases List.mem_append.mp member with zero | digit
    · exact isDigit_of_mem_replicate zero
    · exact isDigit_of_mem_toDigits digit
  split
  · refine standard_of_digits ?_ (fun c member => ?_) ?_ digits
    · exact fun empty => filled (List.append_eq_nil_iff.mp empty).1
    · rcases List.mem_append.mp member with digit | zero
      · exact isDigit_of_mem_toDigits digit
      · exact isDigit_of_mem_replicate zero
    · obtain ⟨c, others, same⟩ := List.exists_cons_of_ne_nil filled
      rw [same] at first
      simp only
      rw [same]
      exact first
  · next inside _ =>
    have pos : 0 < (d.leading + 1).toNat := by omega
    have first' := (head?_take (l := d.digits) pos).trans_ne first
    refine standard_of_digits (fun empty => ?_)
      (fun c member => isDigit_of_mem_toDigits (List.mem_of_mem_take member))
      first' fun c member => isDigit_of_mem_toDigits (List.mem_of_mem_drop member)
    rcases List.take_eq_nil_iff.mp empty with zero | empty
    · omega
    · exact filled empty

theorem standard_exponent (negative : Bool) :
    Standard (exponentNumeral negative d) := by
  have filled : d.digits ≠ [] := Nat.toDigits_ne_nil
  have first : (d.digits.take 1).head? ≠ some '0' :=
    (head?_take (l := d.digits) Nat.one_pos).trans_ne (head?_toDigits_ne positive)
  refine standard_of_digits (fun empty => ?_)
    (fun c member => isDigit_of_mem_toDigits (List.mem_of_mem_take member))
    first fun c member => isDigit_of_mem_toDigits (List.mem_of_mem_drop member)
  rcases List.take_eq_nil_iff.mp empty with none | empty
  · cases none
  · exact filled empty

end

/-- Numbers are written as documents want them. -/
theorem standard_numeral (style : Style)
    (digits : ∀ c ∈ style.afterWhole, c.isDigit = true) (negative : Bool)
    {mantissa : Nat} (bounded : mantissa < 10 ^ 8) (scale : Nat) :
    Standard (style.numeral negative mantissa scale) := by
  unfold Style.numeral
  split
  · exact standard_of_zero rfl digits
  · next some =>
    have positive := coefficient_trimmed_pos (coefficient_shortest_pos style.tie
      (Nat.pos_of_ne_zero some) bounded scale)
    simp only
    split
    · exact standard_positional positive style digits negative
    · exact standard_exponent positive negative

/-- The mantissa of a finite number has 24 bits. -/
theorem mantissa_lt {x : Float32} {negative : Bool} {mantissa scale : Nat}
    (finite : Binary32.parts x = .finite negative mantissa scale) :
    mantissa < 10 ^ 8 := by
  have fraction : x.toBits.toNat % Binary32.leastNormal < Binary32.leastNormal :=
    Nat.mod_lt _ (by decide)
  unfold Binary32.parts at finite
  simp only at finite
  split at finite
  · split at finite <;> cases finite
  split at finite <;> cases finite <;> simp only [Binary32.leastNormal] at * <;>
    omega

theorem readable_ofFloat (x : Float32) : (ofFloat x).Readable := by
  unfold ofFloat documentNumeral?
  cases parts : Binary32.parts x with
  | notANumber => trivial
  | infinite negative => trivial
  | finite negative mantissa scale =>
    refine standard_numeral .document (fun c member => ?_) negative
      (mantissa_lt parts) scale
    cases List.mem_singleton.mp member
    rfl

theorem readable_ofVector (v : Vec3) : (ofVector v).Readable := by
  refine readableItems_iff.mpr fun item member => ?_
  simp only [List.mem_cons, List.not_mem_nil, or_false] at member
  rcases member with rfl | rfl | rfl <;> exact readable_ofFloat _

theorem readable_ofNat (n : Nat) : (ofNat n).Readable := by
  have digits : ∀ c ∈ Nat.toDigits 10 n, c.isDigit = true :=
    fun c => isDigit_of_mem_toDigits
  refine ⟨Nat.toDigits_ne_nil, digits, fun zero => ?_, fun _ member =>
    absurd member List.not_mem_nil⟩
  rcases Nat.eq_zero_or_pos n with rfl | positive
  · exact Nat.le_refl 1
  · exact absurd zero (head?_toDigits_ne positive)

theorem readable_ofText (s : String) : (ofText s).Readable := rfl

theorem readable_ofFields {fields : List (String × Json)}
    (each : ∀ field ∈ fields, field.2.Readable) : (ofFields fields).Readable := by
  refine readableFields_iff.mpr fun field member => ?_
  obtain ⟨⟨name, value⟩, inside, rfl⟩ := List.mem_map.mp member
  exact ⟨rfl, each _ inside⟩

/-! ## Natural numbers -/

theorem le_ofDigitChars (digits : List Char) (n : Nat) :
    n ≤ Nat.ofDigitChars 10 digits n := by
  induction digits generalizing n with
  | nil => exact Nat.le_refl n
  | cons c rest ih =>
    have more : n ≤ 10 * n + (c.toNat - '0'.toNat) := by omega
    exact Nat.le_trans more (ih _)

/-- Digits of a number of 64 bits are all taken up. -/
theorem absorb_eq (digits : List Char) (n : Nat)
    (fits : Nat.ofDigitChars 10 digits n < UInt64.size) :
    absorb n digits = (Nat.ofDigitChars 10 digits n, []) := by
  induction digits generalizing n with
  | nil => rfl
  | cons c rest ih =>
    have next : 10 * n + (c.toNat - '0'.toNat) < UInt64.size :=
      Nat.lt_of_le_of_lt (le_ofDigitChars rest _) fits
    unfold absorb
    rw [if_neg (Nat.not_le.mpr next)]
    exact ih _ fits

/-- Natural numbers are decoded again. -/
theorem natural?_ofNat {n bound : Nat} (below : n < bound)
    (fits : n < UInt64.size) : natural? bound (ofNat n) = some n := by
  have absorbed := absorb_eq (Nat.toDigits 10 n) 0
    (by rwa [Nat.ofDigitChars_ten_toDigits])
  rw [Nat.ofDigitChars_ten_toDigits] at absorbed
  have value : value? ⟨false, Nat.toDigits 10 n, [], none⟩ = some (.natural n) := by
    simp [value?, absorbed]
  simp only [natural?, ofNat, value]
  exact if_pos below

/-! ## Vectors -/

theorem isFinite_of_mem {v : Vec3} (finite : v.isFinite = true) :
    ∀ x ∈ [v.x, v.y, v.z], x.isFinite = true := by
  obtain ⟨⟨x, y⟩, z⟩ : (v.x.isFinite = true ∧ v.y.isFinite = true) ∧
      v.z.isFinite = true := by
    simpa only [Vec3.isFinite, Bool.and_eq_true] using finite
  simp [x, y, z]

/-- A number that is decoded as what it was. -/
def ReadsBack (x : Float32) : Prop := float? (ofFloat x) = some x

theorem vector?_ofVector {v : Vec3}
    (reads : ∀ x ∈ [v.x, v.y, v.z], ReadsBack x) :
    vector? (ofVector v) = some v := by
  have x : float? (ofFloat v.x) = some v.x := reads v.x (by simp)
  have y : float? (ofFloat v.y) = some v.y := reads v.y (by simp)
  have z : float? (ofFloat v.z) = some v.z := reads v.z (by simp)
  rw [ofVector, vector?, x, y, z]
  rfl

/-! ## Digits -/

theorem scaleByTen_tenth (x : Float) :
    scaleByTen x (-1) = some (x / powerOfTen 1) := by
  rw [scaleByTen]
  rfl

/-- A digit as a number, with a sign. -/
def digitValue (negative : Bool) (d : Fin 10) : Float32 :=
  if negative then -(Float32.ofNat d) else Float32.ofNat d

/-- The numeral of a digit in documents. -/
def digitNumeral (negative : Bool) (d : Fin 10) : Numeral :=
  ⟨negative, [Nat.digitChar d], ['0'], none⟩

/-- The point of a digit's numeral is passed over, and ten times the digit is
scaled back. -/
theorem magnitude?_digitNumeral (negative : Bool) (d : Fin 10) :
    magnitude? (digitNumeral negative d) =
      some ((UInt64.ofNat (10 * d)).toFloat / powerOfTen 1) := by
  have whole : ∀ d : Fin 10, absorb 0 [Nat.digitChar d] = (d.val, []) := by
    decide
  have fraction : ∀ d : Fin 10, absorb d.val ['0'] = (10 * d.val, []) := by
    decide
  simp only [magnitude?, digitNumeral, whole, fraction]
  exact scaleByTen_tenth _

/-- Whole numbers of one digit read back, zeros with either sign among them. -/
theorem readsBack_digitValue (negative : Bool) (d : Fin 10) :
    ReadsBack (digitValue negative d) := by
  have written : documentNumeral? (digitValue negative d) =
      some (digitNumeral negative d) := by
    revert negative d
    decide
  have value : value? (digitNumeral negative d) =
      (magnitude? (digitNumeral negative d)).map
        fun x => .real (if negative then -x else x) := rfl
  rw [ReadsBack, ofFloat, written]
  simp only [float?]
  rw [value, magnitude?_digitNumeral]
  clear written value
  revert negative d
  decide

/-! ## Lists -/

/-- Items that are all decoded are decoded together. -/
theorem mapM_map_eq_some {f : β → Option γ} {g : α → β} {h : α → γ}
    {items : List α} (each : ∀ a ∈ items, f (g a) = some (h a)) :
    (items.map g).mapM f = some (items.map h) := by
  induction items with
  | nil => rfl
  | cons a rest ih =>
    obtain ⟨first, others⟩ := List.forall_mem_cons.mp each
    rw [List.map_cons, List.mapM_cons, first, ih others]
    rfl

/-! ## Records -/

theorem lookup_map_some (fields : List (String × Json)) (name : String) :
    (fields.map fun (name, value) => (some name, value)).lookup (some name) =
      fields.lookup name := by
  induction fields with
  | nil => rfl
  | cons field rest ih =>
    obtain ⟨other, value⟩ := field
    rw [List.map_cons, List.lookup_cons, List.lookup_cons, ih]
    rfl

/-- The fields of a record are found by their names. -/
theorem members?_ofFields {fields : List (String × Json)}
    (distinct : (fields.map Prod.fst).Nodup) (names : List String) :
    (ofFields fields).members? names = some (names.map (List.lookup · fields)) := by
  have once (name : String) :
      (fields.map fun (name, value) => (some name, value)).countP
        (·.1 == some name) ≤ 1 := by
    have count := List.nodup_iff_count_le_one.mp distinct name
    rw [List.count_eq_countP, List.countP_map] at count
    rw [List.countP_map]
    exact count
  simp only [members?, ofFields]
  rw [if_pos]
  · simp only [lookup_map_some]
  · simp only [Bool.and_eq_true, List.all_eq_true, decide_eq_true_eq]
    exact ⟨fun field member => by
      obtain ⟨⟨name, value⟩, -, rfl⟩ := List.mem_map.mp member
      rfl, fun name _ => once name⟩

end FieldMesh.Json
