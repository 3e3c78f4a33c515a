import Mathlib.Data.List.Basic

/-!
# Continued Sequences

Elements of which each says whether another one follows, as the bytes of an integer do that carry
a continuation bit. A sequence is `Whole` when it ends where its elements say, and `Open` when
every element of it asks for another one.

## Main results

* `Whole.open_front`: what is in front of the end of a whole sequence is open.
-/

namespace Continued

variable {α : Type*} {more : α → Prop} {l front back : List α} {a : α}

/-- Every element asks for another one. -/
def Open (more : α → Prop) (l : List α) : Prop :=
  ∀ a ∈ l, more a

/-- The last element is the first that asks for no other. -/
def Whole (more : α → Prop) (l : List α) : Prop :=
  ∃ front last, l = front ++ [last] ∧ Open more front ∧ ¬more last

/-- Nothing read is still open. -/
theorem open_nil : Open more [] := by
  intro a hmem
  cases hmem

/-- Two runs are open together if each is. -/
theorem open_append : Open more (front ++ back) ↔ Open more front ∧ Open more back :=
  List.forall_mem_append

/-- A run is open exactly if its last element and the rest go on. -/
theorem open_concat : Open more (l ++ [a]) ↔ Open more l ∧ more a := by
  rw [open_append]
  exact and_congr_right fun _ => List.forall_mem_singleton

/-- An element that does not go on makes an open run whole. -/
theorem Open.whole (h : Open more l) (ha : ¬more a) : Whole more (l ++ [a]) :=
  ⟨l, a, rfl, h, ha⟩

/-- An element that does not go on is whole by itself. -/
theorem whole_singleton (ha : ¬more a) : Whole more [a] :=
  open_nil.whole ha

/-- A whole run stays whole behind an element that goes on. -/
theorem Whole.cons (h : Whole more l) (ha : more a) : Whole more (a :: l) := by
  obtain ⟨front, last, rfl, hfront, hlast⟩ := h
  exact ⟨a :: front, last, rfl, List.forall_mem_cons.mpr ⟨ha, hfront⟩, hlast⟩

/-- **What is in front of the end is open.** -/
theorem Whole.open_front (h : Whole more (front ++ back)) (hback : back ≠ []) :
    Open more front := by
  obtain ⟨init, last, heq, hinit, -⟩ := h
  obtain rfl | ⟨rest, b, rfl⟩ := List.eq_nil_or_concat' back
  · exact absurd rfl hback
  · rw [← List.append_assoc] at heq
    rw [← (List.append_inj' heq rfl).1] at hinit
    exact (open_append.mp hinit).1

end Continued
