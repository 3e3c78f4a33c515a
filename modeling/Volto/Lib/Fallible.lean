import Mathlib.Data.Nat.Notation

/-!
# Fallible Computations

Rules for chains of fallible steps. A chain succeeds exactly when each of its steps does, on
the value of the step before, and it fails with an error of one of its steps. Nothing here is
about a particular program.

## Main results

* `bind_eq_ok`: the inversion rule for one step.
* `FailsIn.bind`, `FailsIn.foldlM`: the errors of a chain and of a loop are those of their steps.
-/

namespace Fallible

universe u v

variable {ε : Type u} {α β : Type v}

/-- A chain succeeds exactly when its first step does and the rest succeeds after it. -/
theorem bind_eq_ok {x : Except ε α} {f : α → Except ε β} {b : β} :
    (x >>= f) = .ok b ↔ ∃ a, x = .ok a ∧ f a = .ok b := by
  cases x with
  | error e =>
      constructor
      · intro h
        cases h
      · rintro ⟨a, h, -⟩
        cases h
  | ok a =>
      constructor
      · intro h
        exact ⟨a, rfl, h⟩
      · rintro ⟨a', h, hf⟩
        cases h
        exact hf

/-- A successful step passes its value on. -/
@[simp] theorem ok_bind (a : α) (f : α → Except ε β) : (Except.ok a >>= f) = f a := rfl

/-- A failed step ends the chain. -/
@[simp] theorem error_bind (e : ε) (f : α → Except ε β) :
    (Except.error e >>= f) = .error e := rfl

/-- A chain with a check in it succeeds exactly when the check lets it. -/
theorem ite_error_eq_ok {p : Prop} [Decidable p] {e : ε} {x : Except ε α} {a : α} :
    (if p then .error e else x) = .ok a ↔ ¬p ∧ x = .ok a := by
  by_cases hp : p
  · rw [if_pos hp]
    constructor
    · intro h
      cases h
    · rintro ⟨hnot, -⟩
      exact absurd hp hnot
  · rw [if_neg hp, and_iff_right hp]

/-- The value of an option, or the error for its absence. -/
def okOr (x : Option α) (e : ε) : Except ε α :=
  match x with
  | some a => .ok a
  | none => .error e

/-- An option's value is taken exactly when there is one. -/
theorem okOr_eq_ok {x : Option α} {e : ε} {a : α} : okOr x e = .ok a ↔ x = some a := by
  cases x with
  | none =>
      constructor <;> intro h <;> cases h
  | some b =>
      constructor
      · intro h
        cases h
        rfl
      · intro h
        cases h
        rfl

/-- A success without its errors. -/
theorem toOption_eq_some {x : Except ε α} {a : α} : x.toOption = some a ↔ x = .ok a := by
  cases x with
  | error e =>
      constructor <;> intro h <;> cases h
  | ok b =>
      constructor
      · intro h
        cases h
        rfl
      · intro h
        cases h
        rfl

/-- Renaming the errors leaves the successes. -/
theorem mapError_eq_ok {ε' : Type u} {x : Except ε α} {f : ε → ε'} {a : α} :
    x.mapError f = .ok a ↔ x = .ok a := by
  cases x with
  | error e =>
      constructor <;> intro h <;> cases h
  | ok b =>
      constructor
      · intro h
        cases h
        rfl
      · intro h
        cases h
        rfl

/-! ### Where the errors come from -/

/-- Every failure of a computation is an error in `P`. -/
def FailsIn (P : ε → Prop) (x : Except ε α) : Prop :=
  ∀ e, x = .error e → P e

namespace FailsIn

variable {P : ε → Prop}

/-- A success fails in nothing. -/
theorem ok (a : α) : FailsIn P (.ok a : Except ε α) := by
  intro e h
  cases h

/-- A failure with an error in `P`. -/
theorem error {e : ε} (h : P e) : FailsIn P (.error e : Except ε α) := by
  intro e' h'
  cases h'
  exact h

/-- Taking an option's value fails with the error for its absence. -/
theorem okOr {e : ε} (h : P e) (x : Option α) : FailsIn P (okOr x e) := by
  cases x with
  | none => exact error h
  | some a => exact ok a

/-- **The errors of a chain are those of its steps.** -/
theorem bind {x : Except ε α} {f : α → Except ε β} (hx : FailsIn P x)
    (hf : ∀ a, x = .ok a → FailsIn P (f a)) : FailsIn P (x >>= f) := by
  intro e h
  cases x with
  | error e' =>
      rw [error_bind] at h
      cases h
      exact hx e rfl
  | ok a => exact hf a rfl e h

/-- **The errors of a loop are those of its body.** -/
theorem foldlM {f : β → α → Except ε β} (hf : ∀ b a, FailsIn P (f b a)) (b : β) (l : List α) :
    FailsIn P (l.foldlM f b) := by
  induction l generalizing b with
  | nil => exact ok b
  | cons a l ih =>
      rw [List.foldlM_cons]
      exact bind (hf b a) fun b _ => ih b

end FailsIn

end Fallible
