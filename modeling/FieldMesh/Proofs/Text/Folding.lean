import FieldMesh.Text.Blank
import FieldMesh.Text.LowerCase

/-!
# Folding twice

Lower-case forms are in lower case: folding a text again changes nothing. For
single characters this is read off the table of runs, two runs at a time.

* `LowerRun.misses`: no lower-case form of one run lies in another run;
* `lowerChar_of_mem`: the lower-case form of a character is its own;
* **main results**: `lower_lower`, folded text stays as it is, and
  `mem_lowerFrom`, folding brings in nothing but letters.
-/

namespace FieldMesh.Text

/-! ## Runs -/

/-- The least code point of the lower-case forms. -/
def LowerRun.lowForm (run : LowerRun) : Nat := (run.first + run.shift).toNat

/-- The greatest code point of the lower-case forms. -/
def LowerRun.highForm (run : LowerRun) : Nat := (run.last + run.shift).toNat

/-- Whether no lower-case form of a run is in another run: they lie apart, or
every second code point of a range is in each. -/
def LowerRun.misses (run other : LowerRun) : Bool :=
  run.highForm < other.first || other.last < run.lowForm ||
    ((run.step == 2 || run.first == run.last) && other.step == 2 &&
      run.lowForm % 2 != other.first % 2)

/-- Whether the lower-case forms of a run are characters, and none of them is
a capital letter of ASCII or U+0130. -/
def LowerRun.settles (run : LowerRun) : Bool :=
  (run.step == 1 || run.step == 2) && 0 ≤ run.first + run.shift &&
    (run.highForm < 65 || 90 < run.lowForm) &&
    (run.highForm < 0x130 || 0x130 < run.lowForm) &&
    (run.highForm < 0xD800 || 0xDFFF < run.lowForm && run.highForm < 0x110000)

theorem settles_lowerRuns : ∀ run ∈ lowerRuns, run.settles = true := by
  decide +kernel

theorem misses_lowerRuns :
    ∀ run ∈ lowerRuns, ∀ other ∈ lowerRuns, run.misses other = true := by
  have tried : (lowerRuns.all fun run => lowerRuns.all run.misses) = true := by
    decide +kernel
  intro run member
  exact List.all_eq_true.mp (List.all_eq_true.mp tried run member)

/-- The lower-case form of a character of a run is in no run. -/
theorem LowerRun.not_contains_form {run other : LowerRun}
    (settles : run.settles = true) (misses : run.misses other = true) {code : Nat}
    (inside : run.contains code = true) :
    other.contains (code + run.shift).toNat = false := by
  rw [Bool.eq_false_iff]
  intro again
  simp only [LowerRun.settles, LowerRun.misses, LowerRun.contains,
    Bool.and_eq_true, Bool.or_eq_true, decide_eq_true_eq, beq_iff_eq,
    bne_iff_ne] at settles misses inside again
  simp only [LowerRun.lowForm, LowerRun.highForm] at misses
  obtain ⟨⟨⟨⟨step, positive⟩, -⟩, -⟩, -⟩ := settles
  rcases misses with (before | behind) | ⟨⟨alternate, two⟩, parity⟩
  · omega
  · omega
  · -- both runs take every second code point, and not the same ones
    rw [two] at again
    rcases alternate with two | single
    · rw [two] at inside
      omega
    · omega

/-! ## Characters -/

/-- Only the capital letters of ASCII change. -/
theorem toLower_of_small {c : Char} (noCapital : c.toNat < 65 ∨ 90 < c.toNat) :
    c.toLower = c := by
  refine dif_neg fun capital => ?_
  obtain ⟨least, most⟩ : 65 ≤ c.toNat ∧ c.toNat ≤ 90 := capital
  omega

theorem toLower_small {c : Char} (ascii : c.toNat < 128) :
    c.toLower.toNat < 128 ∧ (c.toLower.toNat < 65 ∨ 90 < c.toLower.toNat) := by
  have tried : ∀ n < 128, (Char.ofNat n).toLower.toNat < 128 ∧
      ((Char.ofNat n).toLower.toNat < 65 ∨ 90 < (Char.ofNat n).toLower.toNat) := by
    decide
  have here := tried c.toNat ascii
  rwa [Char.ofNat_toNat] at here

theorem toNat_ofNat_of_valid {n : Nat}
    (valid : n < 0xD800 ∨ 0xDFFF < n ∧ n < 0x110000) :
    (Char.ofNat n).toNat = n := by
  rw [Char.ofNat, dif_pos valid]
  rfl

/-- The lower-case form of a character of a run is its own. -/
theorem lowerChar_of_contains {run : LowerRun} (member : run ∈ lowerRuns)
    {code : Nat} (inside : run.contains code = true) :
    lowerChar (Char.ofNat (code + run.shift).toNat) =
      [Char.ofNat (code + run.shift).toNat] := by
  have settles := settles_lowerRuns run member
  have missed : lowerRuns.find? (·.contains (code + run.shift).toNat) = none := by
    rw [List.find?_eq_none]
    intro other among
    rw [LowerRun.not_contains_form settles
      (misses_lowerRuns run member other among) inside]
    exact Bool.false_ne_true
  simp only [LowerRun.settles, LowerRun.contains, Bool.and_eq_true,
    Bool.or_eq_true, decide_eq_true_eq, beq_iff_eq] at settles inside
  simp only [LowerRun.lowForm, LowerRun.highForm] at settles
  have code_eq : (Char.ofNat (code + run.shift).toNat).toNat =
      (code + run.shift).toNat := toNat_ofNat_of_valid (by omega)
  unfold lowerChar
  rw [code_eq, missed, if_neg (show ¬ (code + run.shift).toNat = 0x130 by omega)]
  split
  · rw [toLower_of_small (by rw [code_eq]; omega)]
  · rfl

/-- The lower-case form of a character is its own. -/
theorem lowerChar_of_mem {c d : Char} (member : d ∈ lowerChar c) :
    lowerChar d = [d] := by
  by_cases same : lowerChar c = [c]
  · rw [same] at member
    cases List.mem_singleton.mp member
    exact same
  unfold lowerChar at member
  split at member
  · next ascii =>
    cases List.mem_singleton.mp member
    obtain ⟨ascii', small⟩ := toLower_small ascii
    rw [lowerChar_ascii ascii', toLower_of_small small]
  · next wide =>
    split at member
    · simp only [List.mem_cons, List.not_mem_nil, or_false] at member
      rcases member with rfl | rfl
      · decide
      · decide
    · next other =>
      cases found : lowerRuns.find? (·.contains c.toNat) with
      | some run =>
        rw [found] at member
        cases List.mem_singleton.mp member
        exact lowerChar_of_contains (List.mem_of_find?_eq_some found)
          (by simpa using List.find?_some found)
      | none =>
        refine absurd ?_ same
        rw [lowerChar, if_neg wide, if_neg other, found]

/-! ## Texts -/

/-- Text that stays as it is, character by character. -/
theorem lowerFrom_of_lower (before : List Char) {text : List Char}
    (lowered : ∀ c ∈ text, lowerChar c = [c]) : lowerFrom before text = text := by
  have noSigma : 'Σ' ∉ text := fun member => by
    have stays := lowered 'Σ' member
    revert stays
    decide
  rw [lowerFrom_eq_flatMap before noSigma, List.flatMap_def,
    List.map_congr_left lowered, ← List.flatMap_def, List.flatMap_singleton']

theorem lowerChar_of_mem_lowerFrom {before text : List Char} {d : Char}
    (member : d ∈ lowerFrom before text) : lowerChar d = [d] := by
  induction text generalizing before with
  | nil => cases member
  | cons c rest ih =>
    rw [lowerFrom, List.mem_append] at member
    rcases member with first | later
    · split at first
      · -- both forms of a sigma are in lower case
        split at first <;> cases List.mem_singleton.mp first <;> decide
      · exact lowerChar_of_mem first
    · exact ih later

/-- **Folding.** Folded text stays as it is. -/
theorem lower_lower (text : String) : lower (lower text) = lower text := by
  have stays := lowerFrom_of_lower []
    fun d (member : d ∈ lowerFrom [] text.toList) =>
      lowerChar_of_mem_lowerFrom member
  rw [lower, lower, String.toList_ofList, stays]

/-! ## What folding brings in -/

/-- A small letter of ASCII, or a character beyond ASCII that is not blank. -/
def isFoldedLetter (c : Char) : Prop :=
  97 ≤ c.toNat ∧ c.toNat ≤ 122 ∨ 128 ≤ c.toNat ∧ isBlank c = false

/-- The blanks beyond ASCII, as ranges of code points. -/
def wideBlanks : List (Nat × Nat) :=
  [(0x85, 0x85), (0xA0, 0xA0), (0x1680, 0x1680), (0x2000, 0x200A),
    (0x2028, 0x2029), (0x202F, 0x202F), (0x205F, 0x205F), (0x3000, 0x3000)]

theorem isBlank_of_wide {c : Char} (wide : 128 ≤ c.toNat)
    (apart : ∀ range ∈ wideBlanks, c.toNat < range.1 ∨ range.2 < c.toNat) :
    isBlank c = false := by
  simp only [wideBlanks, List.forall_mem_cons, List.not_mem_nil] at apart
  rw [Bool.eq_false_iff]
  intro blank
  simp only [isBlank, Bool.or_eq_true, Bool.and_eq_true, decide_eq_true_eq,
    beq_iff_eq] at blank
  omega

/-- Whether the lower-case forms of a run are letters, as far as their range
tells. -/
def LowerRun.givesLetters (run : LowerRun) : Bool :=
  (97 ≤ run.lowForm && run.highForm ≤ 122) ||
    (128 ≤ run.lowForm && wideBlanks.all fun range =>
      run.highForm < range.1 || range.2 < run.lowForm)

theorem givesLetters_lowerRuns : ∀ run ∈ lowerRuns, run.givesLetters = true := by
  decide +kernel

theorem isFoldedLetter_of_contains {run : LowerRun} (member : run ∈ lowerRuns)
    {code : Nat} (inside : run.contains code = true) :
    isFoldedLetter (Char.ofNat (code + run.shift).toNat) := by
  have settles := settles_lowerRuns run member
  have letters := givesLetters_lowerRuns run member
  simp only [LowerRun.settles, LowerRun.contains, LowerRun.givesLetters,
    Bool.and_eq_true, Bool.or_eq_true, decide_eq_true_eq, beq_iff_eq,
    List.all_eq_true] at settles inside letters
  simp only [LowerRun.lowForm, LowerRun.highForm] at settles letters
  have code_eq : (Char.ofNat (code + run.shift).toNat).toNat =
      (code + run.shift).toNat := toNat_ofNat_of_valid (by omega)
  rcases letters with small | ⟨wide, apart⟩
  · left
    omega
  · have far : 128 ≤ (Char.ofNat (code + run.shift).toNat).toNat := by omega
    refine .inr ⟨far, isBlank_of_wide far fun range among => ?_⟩
    have := apart range among
    omega

/-- The lower-case form of a character is the character or a letter. -/
theorem mem_lowerChar {c d : Char} (member : d ∈ lowerChar c) :
    d = c ∨ isFoldedLetter d := by
  unfold lowerChar at member
  split at member
  · next ascii =>
    have tried : ∀ n < 128, (Char.ofNat n).toLower = Char.ofNat n ∨
        97 ≤ (Char.ofNat n).toLower.toNat ∧ (Char.ofNat n).toLower.toNat ≤ 122 := by
      decide
    have here := tried c.toNat ascii
    rw [Char.ofNat_toNat] at here
    cases List.mem_singleton.mp member
    exact here.imp id .inl
  split at member
  · right
    simp only [List.mem_cons, List.not_mem_nil, or_false] at member
    rcases member with rfl | rfl
    · exact .inl (by decide)
    · exact .inr (by decide)
  · cases found : lowerRuns.find? (·.contains c.toNat) with
    | some run =>
      rw [found] at member
      cases List.mem_singleton.mp member
      exact .inr (isFoldedLetter_of_contains (List.mem_of_find?_eq_some found)
        (by simpa using List.find?_some found))
    | none =>
      rw [found] at member
      exact .inl (List.mem_singleton.mp member)

/-- What a character of a text is folded to. -/
theorem mem_folded (before rest : List Char) {c d : Char}
    (member : d ∈ (if c = 'Σ' then
      [if startsCased before && !startsCased rest then 'ς' else 'σ']
      else lowerChar c)) : d = c ∨ isFoldedLetter d := by
  split at member
  · right
    split at member <;> cases List.mem_singleton.mp member <;>
      exact .inr (by decide)
  · exact mem_lowerChar member

/-- **Letters only.** Folding brings in nothing but letters. -/
theorem mem_lowerFrom {before text : List Char} {d : Char}
    (member : d ∈ lowerFrom before text) : d ∈ text ∨ isFoldedLetter d := by
  induction text generalizing before with
  | nil => cases member
  | cons c rest ih =>
    rw [lowerFrom, List.mem_append] at member
    rcases member with first | later
    · rcases mem_folded before rest first with rfl | letter
      · exact .inl List.mem_cons_self
      · exact .inr letter
    · exact (ih later).imp (List.mem_cons_of_mem c) id

theorem lowerChar_ne_nil (c : Char) : lowerChar c ≠ [] := by
  unfold lowerChar
  split
  · nofun
  split
  · nofun
  split <;> nofun

/-- The first character of a folded text comes from the first one. -/
theorem head_lowerFrom (before : List Char) (c : Char) (rest : List Char) :
    ∃ d others, lowerFrom before (c :: rest) = d :: others ∧
      (d = c ∨ isFoldedLetter d) := by
  rw [lowerFrom]
  generalize folded : (if c = 'Σ' then
    [if startsCased before && !startsCased rest then 'ς' else 'σ']
    else lowerChar c) = first
  have filled : first ≠ [] := by
    rw [← folded]
    split
    · exact List.cons_ne_nil _ _
    · exact lowerChar_ne_nil c
  obtain ⟨d, others, rfl⟩ := List.exists_cons_of_ne_nil filled
  exact ⟨d, _, rfl, mem_folded before rest (folded ▸ List.mem_cons_self)⟩

end FieldMesh.Text
