import Mathlib.Data.List.Induction

/-!
# Numbered Parties

Parties kept in a list and named by their place in it: one is replaced in place and a new one
is put at the end, so that a place never comes to name another party.

## Main results

* `getElem?_set` and `getElem?_concat`: who is where afterwards.
* `sublist_of_increasing`: what is taken from places further and further on.
-/

namespace Slots

variable {α : Type*} {parties : List α} {i j : ℕ} {a b c : α}

/-- After a replacement the place holds the new party, and every other place what it held. -/
theorem getElem?_set (hi : parties[i]? = some a) :
    (parties.set i b)[j]? = some c ↔ (j = i ∧ c = b) ∨ (j ≠ i ∧ parties[j]? = some c) := by
  have hlt := (List.getElem?_eq_some_iff.mp hi).1
  rw [List.getElem?_set]
  split_ifs with hij
  · subst hij
    simp [eq_comm]
  · simp [Ne.symm hij]

/-- A party that joins comes last. -/
theorem getElem?_concat :
    (parties ++ [a])[i]? = some b ↔ parties[i]? = some b ∨ (i = parties.length ∧ b = a) := by
  rcases Nat.lt_trichotomy i parties.length with hlt | rfl | hgt
  · rw [List.getElem?_append_left hlt]
    simp [Nat.ne_of_lt hlt]
  · simp [eq_comm]
  · rw [List.getElem?_eq_none (by simp; omega), List.getElem?_eq_none (Nat.le_of_lt hgt)]
    simp [Nat.ne_of_gt hgt]

/-- **What is taken from places further and further on**, each under what it is taken for, is in the
order of the places. -/
theorem sublist_of_increasing {β γ : Type*} {f : α → Option β} (place : γ → ℕ) {value : γ → β}
    {taken : List γ} (hincreasing : taken.Pairwise fun g g' => place g < place g')
    (htaken : ∀ g ∈ taken, ∃ a, parties[place g]? = some a ∧ f a = some (value g)) :
    (taken.map value).Sublist (parties.filterMap f) := by
  induction taken using List.reverseRecOn generalizing parties with
  | nil => exact List.nil_sublist _
  | append_singleton taken g ih =>
      obtain ⟨hbefore, -, hlast⟩ := List.pairwise_append.mp hincreasing
      obtain ⟨a, ha, hf⟩ := htaken g (by simp)
      have hlt := (List.getElem?_eq_some_iff.mp ha).1
      have hsplit : parties = parties.take (place g) ++ a :: parties.drop (place g + 1) := by
        rw [← (List.getElem?_eq_some_iff.mp ha).2, List.getElem_cons_drop, List.take_append_drop]
      have hfront : (taken.map value).Sublist ((parties.take (place g)).filterMap f) := by
        refine ih hbefore fun g' hg' => ?_
        obtain ⟨a', ha', hf'⟩ := htaken g' (by simp [hg'])
        refine ⟨a', ?_, hf'⟩
        rw [List.getElem?_take_of_lt (hlast g' hg' g (by simp)), ha']
      rw [hsplit, List.filterMap_append, List.filterMap_cons_some hf, List.map_append]
      exact hfront.append (List.Sublist.cons_cons _ (List.nil_sublist _))

end Slots
