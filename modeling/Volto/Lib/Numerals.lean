import Mathlib.Data.Nat.Digits.Lemmas

/-!
# Numerals

A number is written in a base with its most significant digit first, without leading zeros, and
zero with one digit. Reading the digits from the left gives the number back.

## Main results

* `value_numeral`: the digits of a number spell it.
* `length_numeral_le`: a number below a power of the base has no more digits than its exponent.
-/

namespace Numerals

/-- The digits of a number, the most significant first. -/
def numeral (base n : ℕ) : List ℕ :=
  if n = 0 then [0] else (Nat.digits base n).reverse

/-- The number that digits spell. -/
def value (base : ℕ) (digits : List ℕ) : ℕ :=
  digits.foldl (fun n digit => base * n + digit) 0

variable {base n k : ℕ}

/-- **The digits of a number spell it.** -/
theorem value_numeral (base n : ℕ) : value base (numeral base n) = n := by
  rw [numeral, value]
  split_ifs with hzero
  · simp [hzero]
  · have hfold : (Nat.digits base n).foldr (fun digit n => base * n + digit) 0 = n := by
      conv_rhs => rw [← Nat.ofDigits_digits base n, Nat.ofDigits_eq_foldr]
      simp [Nat.add_comm]
    rw [List.foldl_reverse, hfold]

/-- Every number has a digit. -/
theorem numeral_ne_nil (base n : ℕ) : numeral base n ≠ [] := by
  rw [numeral]
  split_ifs with hzero
  · simp
  · simpa [Nat.digits_eq_nil_iff_eq_zero] using hzero

/-- Every digit is below the base. -/
theorem lt_of_mem_numeral (hbase : 1 < base) {digit : ℕ} (h : digit ∈ numeral base n) :
    digit < base := by
  rw [numeral] at h
  split_ifs at h with hzero
  · rw [List.mem_singleton.mp h]
    omega
  · exact Nat.digits_lt_base hbase (List.mem_reverse.mp h)

/-- **A number below a power of the base has no more digits than its exponent.** -/
theorem length_numeral_le (hbase : 1 < base) (hk : 0 < k) (h : n < base ^ k) :
    (numeral base n).length ≤ k := by
  rw [numeral]
  split_ifs with hzero
  · exact hk
  · rw [List.length_reverse]
    exact (Nat.digits_length_le_iff hbase n).mpr h

/-- Only zero is written with a zero in front. -/
theorem head_numeral (h : (numeral base n).head? = some 0) : n = 0 := by
  rw [numeral] at h
  split_ifs at h with hzero
  · exact hzero
  · have hne : Nat.digits base n ≠ [] := Nat.digits_ne_nil_iff_ne_zero.mpr hzero
    rw [List.head?_reverse, List.getLast?_eq_some_getLast hne, Option.some.injEq] at h
    exact absurd h (Nat.getLast_digit_ne_zero base hzero)

/-- Zero is written as one zero. -/
theorem numeral_zero (base : ℕ) : numeral base 0 = [0] := by
  rw [numeral, if_pos rfl]

end Numerals
