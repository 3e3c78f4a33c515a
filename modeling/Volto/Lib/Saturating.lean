import Mathlib.Algebra.Order.BigOperators.Group.List
import Mathlib.Algebra.Order.Ring.Nat

/-!
# Saturating Counters

Counters that stop at a limit instead of wrapping. A count kept in several of them, or added up
in one, is still exact as far as any bound within the limit can tell.

## Main results

* `foldl_add`: a saturating sum is the sum, cut at the limit.
* `le_sum_min_iff`: counters that saturate reach a bound exactly when the counts do.
-/

namespace Saturating

/-- The largest value of 32 bits. -/
def limit32 : ℕ := 2 ^ 32 - 1

/-- Addition that stops at a limit. -/
def add (limit a b : ℕ) : ℕ :=
  min (a + b) limit

variable {limit : ℕ}

/-- A saturating sum is the sum, cut at the limit. -/
theorem foldl_add (counts : List ℕ) {start : ℕ} (h : start ≤ limit) :
    counts.foldl (add limit) start = min (start + counts.sum) limit := by
  induction counts generalizing start with
  | nil =>
      rw [List.foldl_nil, List.sum_nil, Nat.add_zero, Nat.min_eq_left h]
  | cons count counts ih =>
      rw [List.foldl_cons, add, ih (Nat.min_le_right _ _), List.sum_cons]
      omega

/-- One more on a counter that may be saturated. -/
theorem add_min_one (limit count : ℕ) : add limit (min count limit) 1 = min (count + 1) limit := by
  rw [add]
  omega

/-- **Saturated counters are exact below the limit.** -/
theorem le_sum_min_iff {bound : ℕ} (h : bound ≤ limit) (counts : List ℕ) :
    bound ≤ (counts.map (min · limit)).sum ↔ bound ≤ counts.sum := by
  induction counts generalizing bound with
  | nil => rfl
  | cons count counts ih =>
      rw [List.map_cons, List.sum_cons, List.sum_cons]
      have hrest : bound - min count limit ≤ (counts.map (min · limit)).sum ↔
          bound - min count limit ≤ counts.sum := ih (by omega)
      omega

end Saturating
