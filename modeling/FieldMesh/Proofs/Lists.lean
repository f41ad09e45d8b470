/-!
# Lists

Places and lengths of lists that are written to, joined and extended.

* `getElem?_of_prefix`, `getElem?_concat_iff`: places when a list gets longer;
* `take_set_succ`, `drop_set_of_lt`: what a write does before and behind its
  place;
* `forall_mem_modify`: what holds of all entries when one is changed;
* `length_flatMap_le`, `length_flatMap_eq`: lengths of lists one after the
  other.
-/

namespace FieldMesh

/-! ## Longer lists -/

/-- Places at the front stay as they are. -/
theorem getElem?_of_prefix {l l' : List α} (front : l <+: l') {i : Nat} {a : α}
    (found : l[i]? = some a) : l'[i]? = some a := by
  obtain ⟨rest, rfl⟩ := front
  obtain ⟨inside, -⟩ := List.getElem?_eq_some_iff.mp found
  rw [List.getElem?_append_left inside, found]

/-- The places of a list with one more entry. -/
theorem getElem?_concat_iff {l : List α} {i : Nat} {a b : α} :
    (l ++ [a])[i]? = some b ↔ l[i]? = some b ∨ i = l.length ∧ a = b := by
  rcases Nat.lt_trichotomy i l.length with low | rfl | high
  · rw [List.getElem?_append_left low]
    simp [Nat.ne_of_lt low]
  · simp
  · have outside : [a].length ≤ i - l.length := Nat.sub_pos_of_lt high
    rw [List.getElem?_append_right (Nat.le_of_lt high),
      List.getElem?_eq_none outside, List.getElem?_eq_none (Nat.le_of_lt high)]
    simp [Nat.ne_of_gt high]

/-! ## Writes -/

/-- A write behind the first entries. -/
theorem take_set_succ {l : List α} {n : Nat} (inside : n < l.length) (v : α) :
    (l.set n v).take (n + 1) = l.take n ++ [v] := by
  rw [List.set_eq_take_append_cons_drop, if_pos inside]
  have front : (l.take n).length = n := List.length_take_of_le (Nat.le_of_lt inside)
  rw [List.take_append, front, Nat.add_sub_cancel_left, List.take_succ_cons,
    List.take_zero, List.take_of_length_le (by omega)]

/-- A write before some place leaves what is from there on. -/
theorem drop_set_of_lt {l : List α} {i n : Nat} (before : i < n) (v : α) :
    (l.set i v).drop n = l.drop n := by
  rw [List.drop_set, if_pos before]

/-- What holds of all entries, and is kept by a change, holds after one. -/
theorem forall_mem_modify {l : List α} {P : α → Prop} (all : ∀ a ∈ l, P a)
    {f : α → α} (keeps : ∀ a, P a → P (f a)) (i : Nat) :
    ∀ a ∈ l.modify i f, P a := by
  intro a member
  obtain ⟨j, entry⟩ := List.mem_iff_getElem?.mp member
  rw [List.getElem?_modify] at entry
  obtain ⟨b, before, rfl⟩ := Option.map_eq_some_iff.mp entry
  have holds := all b (List.mem_of_getElem? before)
  split
  · exact keeps b holds
  · exact holds

/-- What is left after one more was left before. -/
theorem mem_drop_succ {l : List α} {n : Nat} {a : α}
    (member : a ∈ l.drop (n + 1)) : a ∈ l.drop n := by
  rw [← List.drop_drop] at member
  exact List.mem_of_mem_drop member

/-! ## Lists of lists -/

/-- Lists of at most some length, one after the other. -/
theorem length_flatMap_le {f : α → List β} {n : Nat} {l : List α}
    (each : ∀ a ∈ l, (f a).length ≤ n) : (l.flatMap f).length ≤ n * l.length := by
  induction l with
  | nil => exact Nat.zero_le _
  | cons a rest ih =>
    have first := each a List.mem_cons_self
    have others := ih fun b member => each b (List.mem_cons_of_mem a member)
    rw [List.flatMap_cons, List.length_append, List.length_cons, Nat.mul_succ]
    omega

/-- Lists of the same length, one after the other. -/
theorem length_flatMap_eq {f : α → List β} {n : Nat}
    (each : ∀ a, (f a).length = n) (l : List α) :
    (l.flatMap f).length = n * l.length := by
  induction l with
  | nil => rfl
  | cons a rest ih =>
    rw [List.flatMap_cons, List.length_append, each, ih, List.length_cons,
      Nat.mul_succ, Nat.add_comm]

/-- The places of a list in which every item is repeated. -/
theorem getElem?_flatMap_replicate (f : α → β) (n : Nat) (l : List α)
    {t j : Nat} (inside : j < n) :
    (l.flatMap fun a => List.replicate n (f a))[n * t + j]? = l[t]?.map f := by
  induction l generalizing t with
  | nil => rfl
  | cons a rest ih =>
    rw [List.flatMap_cons]
    cases t with
    | zero =>
      rw [Nat.mul_zero, Nat.zero_add,
        List.getElem?_append_left (by rwa [List.length_replicate]),
        List.getElem?_replicate, if_pos inside]
      rfl
    | succ t =>
      have beyond : (List.replicate n (f a)).length ≤ n * (t + 1) + j := by
        rw [List.length_replicate, Nat.mul_succ]
        omega
      have place : n * (t + 1) + j - (List.replicate n (f a)).length =
          n * t + j := by
        rw [List.length_replicate, Nat.mul_succ]
        omega
      rw [List.getElem?_append_right beyond, place, ih, List.getElem?_cons_succ]

end FieldMesh
