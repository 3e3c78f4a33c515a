import Mathlib.Data.Fin.Basic
import Mathlib.Data.Nat.ModEq
import Mathlib.Logic.Function.Basic
import Volto.Lib.Slots

/-!
# Rings

A ring of `k` slots that is written round and round: the `j`-th entry of a log goes to slot
`j % k`, over the entry of `k` writes before. So a ring keeps the last `k` entries of its log,
each in a slot of its own, and what is done to the slots meanwhile is a relation between an entry
and what its slot holds.

## Main results

* `Keeps.push`: a write drops the oldest entry and no other.
* `exists_entry`: every slot is that of one of the last entries, or was never written.
-/

namespace Ring

variable {α β : Type*} {k : ℕ} [NeZero k]

/-- The slot of the `j`-th entry. -/
def slot (k : ℕ) [NeZero k] (j : ℕ) : Fin k :=
  Fin.ofNat k j

/-- The slot of an entry is its number modulo the size of the ring. -/
theorem slot_val (j : ℕ) : (slot k j).val = j % k :=
  rfl

/-- Entries less than a round apart have slots of their own. -/
theorem slot_ne {i j : ℕ} (hlt : i < j) (hnear : j < i + k) : slot k i ≠ slot k j := by
  intro heq
  have hmod : i % k = j % k := congrArg Fin.val heq
  have hdvd : k ∣ j - i := (Nat.modEq_iff_dvd' hlt.le).mp hmod
  have hle := Nat.le_of_dvd (by omega) hdvd
  omega

/-- **A ring keeps the last `k` entries of a log**, each related to what its slot holds. -/
def Keeps (R : α → β → Prop) (log : List α) (slots : Fin k → β) : Prop :=
  ∀ (j : ℕ) (a : α), log[j]? = some a → log.length ≤ j + k → R a (slots (slot k j))

variable {R R' : α → β → Prop} {log : List α} {slots slots' : Fin k → β}

/-- A ring of which nothing is asked keeps nothing. -/
theorem keeps_nil (R : α → β → Prop) (slots : Fin k → β) : Keeps R [] slots := by
  intro j a h
  cases h

/-- What happens to the slots between writes happens to the entries they keep. -/
theorem Keeps.mono (h : Keeps R log slots) (hR : ∀ a i, R a (slots i) → R' a (slots' i)) :
    Keeps R' log slots' :=
  fun j a ha hj => hR a _ (h j a ha hj)

/-- **A write drops the oldest entry and no other.** -/
theorem Keeps.push (h : Keeps R log slots) {a : α} {b : β} (hab : R a b) :
    Keeps R (log ++ [a]) (Function.update slots (slot k log.length) b) := by
  intro j c hc hj
  rw [List.length_append, List.length_singleton] at hj
  rcases Slots.getElem?_concat.mp hc with hold | ⟨rfl, rfl⟩
  · have hlt := (List.getElem?_eq_some_iff.mp hold).1
    rw [Function.update_of_ne (slot_ne hlt (by omega))]
    exact h j c hold (by omega)
  · rw [Function.update_self]
    exact hab

/-- **Every slot is that of one of the last entries, or was never written.** -/
theorem exists_entry (log : List α) (i : Fin k) :
    (∃ j a, log[j]? = some a ∧ log.length ≤ j + k ∧ slot k j = i) ∨ log.length ≤ i := by
  rcases Nat.lt_or_ge i.val log.length with hlt | hge
  · -- the last index below the length of the log that is `i` up to whole rounds
    let j := i.val + k * ((log.length - 1 - i.val) / k)
    have hpos : 0 < k := Nat.pos_of_neZero k
    have hdiv := Nat.div_add_mod (log.length - 1 - i.val) k
    have hmod := Nat.mod_lt (log.length - 1 - i.val) hpos
    have hj : j < log.length := by
      show i.val + k * ((log.length - 1 - i.val) / k) < log.length
      omega
    refine .inl ⟨j, log[j], List.getElem?_eq_getElem hj, ?_, ?_⟩
    · show log.length ≤ i.val + k * ((log.length - 1 - i.val) / k) + k
      omega
    · ext
      rw [slot_val, Nat.add_mul_mod_self_left, Nat.mod_eq_of_lt i.isLt]
  · exact .inr hge

end Ring
