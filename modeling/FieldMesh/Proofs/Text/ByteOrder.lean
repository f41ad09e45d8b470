import Mathlib.Data.String.Basic

/-!
# Order by bytes

Texts are in the order of their characters. Their bytes are in the same order:
the first byte of a character tells how many follow, and a greater character
has a greater byte where the two first differ.

* `bytes`: the bytes of a text;
* `encode_lt_encode`: a smaller character comes first, whatever follows;
* **main result**: `lt_iff_bytes_lt`.
-/

namespace FieldMesh.Text

/-- The bytes of a text in UTF-8. -/
def bytes (text : String) : List UInt8 := text.toUTF8.data.toList

theorem bytes_eq (text : String) :
    bytes text = text.toList.flatMap String.utf8EncodeChar := by
  have encoded : text.toUTF8 = text.toList.utf8Encode := by
    rw [← String.toByteArray_ofList, String.ofList_toList]
    rfl
  rw [bytes, encoded, List.utf8Encode, List.data_toByteArray,
    List.toList_toArray]

/-- A smaller character comes first, whatever follows. -/
theorem encode_lt_encode {c d : Char} (less : c < d) (rest rest' : List UInt8) :
    String.utf8EncodeChar c ++ rest < String.utf8EncodeChar d ++ rest' := by
  have code : c.val.toNat < d.val.toNat := less
  have bound : d.val.toNat < 0x110000 := by
    have valid := d.valid
    simp only [UInt32.isValidChar, Nat.isValidChar] at valid
    omega
  unfold String.utf8EncodeChar
  generalize c.val.toNat = m at *
  generalize d.val.toNat = n at *
  -- the bytes are digits to the base 64, which compare like the numbers
  have square (k : Nat) : k / 4096 = k / 64 / 64 := by
    rw [Nat.div_div_eq_div_mul]
  have cube (k : Nat) : k / 262144 = k / 64 / 64 / 64 := by
    rw [Nat.div_div_eq_div_mul, Nat.div_div_eq_div_mul]
  simp only [square, cube]
  clear square cube
  split_ifs <;>
    simp only [List.cons_append, List.nil_append, List.cons_lt_cons_iff,
      UInt8.lt_iff_toNat_lt, ← UInt8.toNat_inj, UInt8.toNat_ofNat'] <;>
    simp (disch := omega) only [Nat.mod_eq_of_lt] <;>
    omega

theorem flatMap_lt_flatMap {text other : List Char} (less : text < other) :
    text.flatMap String.utf8EncodeChar < other.flatMap String.utf8EncodeChar := by
  induction text generalizing other with
  | nil =>
    cases other with
    | nil => exact absurd less (List.lt_irrefl _)
    | cons d rest =>
      obtain ⟨first, more, split⟩ :=
        List.exists_cons_of_ne_nil (String.utf8EncodeChar_ne_nil (c := d))
      rw [List.flatMap_cons, split]
      exact List.nil_lt_cons _ _
  | cons c rest ih =>
    cases other with
    | nil => exact absurd less (List.not_lt_nil _)
    | cons d rest' =>
      rw [List.flatMap_cons, List.flatMap_cons]
      rcases List.cons_lt_cons_iff.mp less with first | ⟨rfl, later⟩
      · exact encode_lt_encode first _ _
      · exact List.append_left_lt (ih later)

/-- **Order.** Texts are in the order of their bytes. -/
theorem lt_iff_bytes_lt {text other : String} :
    text < other ↔ bytes text < bytes other := by
  rw [bytes_eq, bytes_eq, String.lt_iff_toList_lt]
  constructor
  · exact flatMap_lt_flatMap
  · intro less
    rcases lt_trichotomy text.toList other.toList with before | same | after
    · exact before
    · rw [same] at less
      exact absurd less (List.lt_irrefl _)
    · exact absurd less (List.lt_asymm (flatMap_lt_flatMap after))

end FieldMesh.Text
