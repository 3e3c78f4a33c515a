import Mathlib.Algebra.Order.BigOperators.Group.List
import Mathlib.Algebra.Order.Ring.Nat

/-!
# Shared Counters

Parties that draw on one counter, each holding a share of it. `total` is what they hold
together. When one party is replaced by another, a new one joins or one is looked at, the
total moves by the shares involved and by nothing else, which is all an argument about a
shared counter needs: a counter that starts as the total and moves with the share of the
party that acts stays the total.
-/

namespace Ledger

variable {α : Type*} (share : α → ℕ)

/-- What all the parties hold together. -/
def total (parties : List α) : ℕ :=
  (parties.map share).sum

/-- Nobody owes anything. -/
@[simp] theorem total_nil : total share [] = 0 := rfl

/-- The share of one more party. -/
@[simp] theorem total_cons (a : α) (parties : List α) :
    total share (a :: parties) = share a + total share parties := by
  simp [total]

/-- A party that joins adds its share. -/
theorem total_concat (parties : List α) (a : α) :
    total share (parties ++ [a]) = total share parties + share a := by
  simp [total]

/-- No party holds more than there is. -/
theorem share_le_total {parties : List α} {i : ℕ} {a : α} (h : parties[i]? = some a) :
    share a ≤ total share parties :=
  List.le_sum_of_mem (List.mem_map_of_mem (List.mem_of_getElem? h))

/-- **Replacing one party moves the total by its share.** -/
theorem total_set {parties : List α} {i : ℕ} {a : α} (h : parties[i]? = some a) (b : α) :
    total share (parties.set i b) + share a = total share parties + share b := by
  induction parties generalizing i with
  | nil => simp at h
  | cons x parties ih =>
      cases i with
      | zero =>
          obtain rfl : x = a := by simpa using h
          simp only [List.set_cons_zero, total_cons]
          omega
      | succ i =>
          have := ih (i := i) (by simpa using h)
          simp only [List.set_cons_succ, total_cons]
          omega

/-- Parties that hold nothing hold nothing together. -/
theorem total_eq_zero {parties : List α} (h : ∀ a ∈ parties, share a = 0) :
    total share parties = 0 := by
  refine List.sum_eq_zero ?_
  intro x hx
  obtain ⟨a, ha, rfl⟩ := List.mem_map.mp hx
  exact h a ha

end Ledger
