import FieldMesh.Proofs.Text.Folding

/-!
# Letter case

Texts that differ in the case of letters of ASCII. What is asked of single
characters, for instance whether they are blank, is answered alike for a
capital letter and for the small one, and so is whatever is made of such
answers.

* `apply_toLower`: a function that takes the 26 capital letters for the small
  ones sees no difference anywhere;
* `SameLetters`: texts that differ in letter case only;
* **main result**: `lower_congr`, such texts have one lower-case form, final
  sigmas included.
-/

namespace FieldMesh.Text

/-! ## Characters -/

/-- A function that gives the same for the capital letters of ASCII as for the
small ones gives the same for every character and its small form. -/
theorem apply_toLower {α : Type} {f : Char → α}
    (letters : ∀ n < 26, f (Char.ofNat (97 + n)) = f (Char.ofNat (65 + n)))
    (c : Char) : f c.toLower = f c := by
  by_cases capital : 65 ≤ c.toNat ∧ c.toNat ≤ 90
  · obtain ⟨n, code⟩ := Nat.exists_eq_add_of_le capital.1
    have own : c = Char.ofNat (65 + n) := by rw [← code, Char.ofNat_toNat]
    have small : ∀ n < 26, (Char.ofNat (65 + n)).toLower = Char.ofNat (97 + n) := by
      decide
    rw [own, small n (by omega), letters n (by omega)]
  · rw [toLower_of_small (by omega)]

theorem isBlank_toLower (c : Char) : isBlank c.toLower = isBlank c :=
  apply_toLower (by decide) c

theorem isDigit_toLower (c : Char) : c.toLower.isDigit = c.isDigit :=
  apply_toLower (f := Char.isDigit) (by decide) c

theorem isCased_toLower (c : Char) : isCased c.toLower = isCased c :=
  apply_toLower (by decide +kernel) c

theorem isCaseIgnorable_toLower (c : Char) :
    isCaseIgnorable c.toLower = isCaseIgnorable c :=
  apply_toLower (by decide +kernel) c

theorem lowerChar_toLower (c : Char) : lowerChar c.toLower = lowerChar c :=
  apply_toLower (by decide +kernel) c

theorem utf8Size_toLower (c : Char) : c.toLower.utf8Size = c.utf8Size :=
  apply_toLower (f := Char.utf8Size) (by decide) c

/-- A character that is no letter of ASCII is the small form of itself
alone. -/
theorem toLower_eq_iff {mark : Char}
    (noLetter : ∀ n < 26, mark ≠ Char.ofNat (97 + n) ∧ mark ≠ Char.ofNat (65 + n))
    (c : Char) : c.toLower = mark ↔ c = mark := by
  have same := apply_toLower (f := fun d => decide (d = mark)) (fun n inside => by
    obtain ⟨small, capital⟩ := noLetter n inside
    rw [decide_eq_false small.symm, decide_eq_false capital.symm]) c
  simpa using same

/-! ## Texts -/

section

variable {p : Char → Bool} (blind : ∀ c, p c.toLower = p c)

include blind

theorem takeWhile_toLower (text : List Char) :
    (text.map Char.toLower).takeWhile p =
      (text.takeWhile p).map Char.toLower := by
  rw [List.takeWhile_map, show p ∘ Char.toLower = p from funext blind]

theorem dropWhile_toLower (text : List Char) :
    (text.map Char.toLower).dropWhile p =
      (text.dropWhile p).map Char.toLower := by
  rw [List.dropWhile_map, show p ∘ Char.toLower = p from funext blind]

end

theorem dropBlanks_toLower (text : List Char) :
    dropBlanks (text.map Char.toLower) = (dropBlanks text).map Char.toLower :=
  dropWhile_toLower isBlank_toLower text

theorem trim_toLower (text : List Char) :
    trim (text.map Char.toLower) = (trim text).map Char.toLower := by
  rw [trim, dropBlanks_toLower, ← List.map_reverse, dropBlanks_toLower,
    ← List.map_reverse, trim]

theorem startsCased_toLower (text : List Char) :
    startsCased (text.map Char.toLower) = startsCased text := by
  rw [startsCased, dropWhile_toLower isCaseIgnorable_toLower, startsCased]
  cases text.dropWhile isCaseIgnorable with
  | nil => rfl
  | cons c _ => exact isCased_toLower c

/-- Folding small letters is folding the letters. A sigma is final among the
ones as among the others. -/
theorem lowerFrom_toLower (before text : List Char) :
    lowerFrom (before.map Char.toLower) (text.map Char.toLower) =
      lowerFrom before text := by
  induction text generalizing before with
  | nil => rfl
  | cons c rest ih =>
    have sigma : c.toLower = 'Σ' ↔ c = 'Σ' := toLower_eq_iff (by decide) c
    -- the letters before and behind decide the form of a sigma
    have later := ih (c :: before)
    rw [List.map_cons] at later
    rw [List.map_cons, lowerFrom, lowerFrom, startsCased_toLower,
      startsCased_toLower, lowerChar_toLower, later]
    simp only [sigma]

theorem lower_toLower (text : List Char) :
    lower (String.ofList (text.map Char.toLower)) = lower (String.ofList text) := by
  rw [lower, lower, String.toList_ofList, String.toList_ofList]
  exact congrArg String.ofList (lowerFrom_toLower [] text)

/-- Texts that differ in the case of letters of ASCII only. -/
def SameLetters (s t : String) : Prop :=
  s.toList.map Char.toLower = t.toList.map Char.toLower

instance (s t : String) : Decidable (SameLetters s t) :=
  inferInstanceAs (Decidable (_ = _))

/-- **Letter case.** Texts that differ in letter case have one lower-case
form. -/
theorem lower_congr {s t : String} (same : SameLetters s t) :
    lower s = lower t := by
  rw [← String.ofList_toList (s := s), ← String.ofList_toList (s := t),
    ← lower_toLower, same, lower_toLower]

end FieldMesh.Text
