import Mathlib.Algebra.Order.Ring.Nat
import Volto.Lib.Fallible

/-!
# Checked Indexing

Code that reads a list by indices, with everything that can go wrong written out. A computation
ends early in one of two ways: it *refuses* its input, as code does that asks for an element with a
checked accessor and passes its absence on, or it *faults*, where an index or a range is taken
outside of the list, an arithmetic operation or a shift leaves the machine's numbers, or a loop
does not end within its passes. That code never faults is then an equation: it is some partial
function that knows no faults (`refuse`).

Where the code holds a position and the partial function the rest of the list, the two are related
by `Refines`, up to a relation between their values.

## Main results

* `refuse_bind`: a chain of steps is a partial function when each of its steps is.
* `Refines.bind`: a chain refines another one step by step.
-/

namespace Checked

/-- What must not happen. -/
inductive Fault
  | outOfRange
  | overflow
  | endless
deriving DecidableEq, Repr

/-- How a computation ends without a value. -/
inductive Stop
  | refused
  | fault (fault : Fault)
deriving DecidableEq, Repr

variable {α β : Type*}

/-- The value of an option, or the refusal of its input. -/
def refuse (x : Option α) : Except Stop α :=
  Fallible.okOr x .refused

/-- A value that is there is not refused. -/
@[simp] theorem refuse_some (a : α) : refuse (some a) = .ok a := rfl

/-- A value that is missing is refused. -/
@[simp] theorem refuse_none : refuse (none : Option α) = .error .refused := rfl

/-- **A chain of steps is a partial function** when its first step and the rest of it are. -/
theorem refuse_bind {α β : Type} {x : Option α} {f : α → Except Stop β} {g : α → Option β}
    (h : ∀ a, x = some a → f a = refuse (g a)) : (refuse x >>= f) = refuse (x.bind g) := by
  cases x with
  | none => rfl
  | some a => exact h a rfl

/-- A chain with a check in it. -/
theorem ite_refuse {p : Prop} [Decidable p] {x : Except Stop α} {y : Option α}
    (h : ¬p → x = refuse y) :
    (if p then .error .refused else x) = refuse (if p then none else y) := by
  by_cases hp : p
  · rw [if_pos hp, if_pos hp, refuse_none]
  · rw [if_neg hp, if_neg hp, h hp]

/-- `l[i]`. -/
def index (l : List α) (i : ℕ) : Except Stop α :=
  match l[i]? with
  | some a => .ok a
  | none => .error (.fault .outOfRange)

/-- `l[start..stop]`. -/
def slice (l : List α) (start stop : ℕ) : Except Stop (List α) :=
  if start ≤ stop ∧ stop ≤ l.length then .ok ((l.take stop).drop start)
  else .error (.fault .outOfRange)

/-- `l.get(start..stop)`. -/
def getRange (l : List α) (start stop : ℕ) : Option (List α) :=
  if start ≤ stop ∧ stop ≤ l.length then some ((l.take stop).drop start) else none

/-- `l.get(start..)`. -/
def getFrom (l : List α) (start : ℕ) : Option (List α) :=
  if start ≤ l.length then some (l.drop start) else none

section

variable (limit : ℕ)

/-- `a + b`. -/
def add (a b : ℕ) : Except Stop ℕ :=
  if a + b ≤ limit then .ok (a + b) else .error (.fault .overflow)

/-- `a * b`. -/
def mul (a b : ℕ) : Except Stop ℕ :=
  if a * b ≤ limit then .ok (a * b) else .error (.fault .overflow)

/-- `a.checked_add(b)`. -/
def checkedAdd (a b : ℕ) : Option ℕ :=
  if a + b ≤ limit then some (a + b) else none

end

/-- `a - b`. -/
def sub (a b : ℕ) : Except Stop ℕ :=
  if b ≤ a then .ok (a - b) else .error (.fault .overflow)

section

variable (width : ℕ)

/-- `a << shift` in words of `width` bits, where every bit stays in the word. -/
def shl (a shift : ℕ) : Except Stop ℕ :=
  if shift < width ∧ a <<< shift < 2 ^ width then .ok (a <<< shift) else .error (.fault .overflow)

/-- `a >> shift` in words of `width` bits. -/
def shr (a shift : ℕ) : Except Stop ℕ :=
  if shift < width then .ok (a >>> shift) else .error (.fault .overflow)

/-- `a as _` for words of `width` bits, where every bit is kept. -/
def narrow (a : ℕ) : Except Stop ℕ :=
  if a < 2 ^ width then .ok a else .error (.fault .overflow)

end

/-! ### Without faults -/

/-- An index in range does not stop. -/
theorem index_of_getElem? {l : List α} {i : ℕ} {a : α} (h : l[i]? = some a) :
    index l i = .ok a := by
  rw [index, h]

/-- A slice in range does not stop. -/
theorem slice_of_le {l : List α} {start stop : ℕ} (hstart : start ≤ stop)
    (hstop : stop ≤ l.length) : slice l start stop = .ok ((l.take stop).drop start) :=
  if_pos ⟨hstart, hstop⟩

/-- A tail in range is there. -/
theorem getFrom_of_le {l : List α} {start : ℕ} (h : start ≤ l.length) :
    getFrom l start = some (l.drop start) :=
  if_pos h

/-- A sum within the limit does not stop. -/
theorem add_of_le {limit a b : ℕ} (h : a + b ≤ limit) : add limit a b = .ok (a + b) :=
  if_pos h

/-- A product within the limit does not stop. -/
theorem mul_of_le {limit a b : ℕ} (h : a * b ≤ limit) : mul limit a b = .ok (a * b) :=
  if_pos h

/-- A checked sum within the limit is there. -/
theorem checkedAdd_of_le {limit a b : ℕ} (h : a + b ≤ limit) :
    checkedAdd limit a b = some (a + b) :=
  if_pos h

/-- A sum that does not fit is refused, as it would be later on. -/
theorem checkedAdd_bind {α : Type} {limit a b : ℕ} {f : ℕ → Except Stop α} {y : Option α}
    (hfits : a + b ≤ limit → f (a + b) = refuse y) (hlarge : limit < a + b → y = none) :
    (refuse (checkedAdd limit a b) >>= f) = refuse y := by
  by_cases h : a + b ≤ limit
  · rw [checkedAdd_of_le h, ← hfits h]
    rfl
  · rw [checkedAdd, if_neg h, hlarge (Nat.lt_of_not_le h)]
    rfl

/-- A difference that is not negative does not stop. -/
theorem sub_of_le {a b : ℕ} (h : b ≤ a) : sub a b = .ok (a - b) :=
  if_pos h

/-- A shift to the left that loses no bit does not stop. -/
theorem shl_of_lt {width a shift : ℕ} (hshift : shift < width) (h : a <<< shift < 2 ^ width) :
    shl width a shift = .ok (a <<< shift) :=
  if_pos ⟨hshift, h⟩

/-- A shift to the right by less than the width does not stop. -/
theorem shr_of_lt {width a shift : ℕ} (h : shift < width) : shr width a shift = .ok (a >>> shift) :=
  if_pos h

/-- A value that fits the narrower type does not stop. -/
theorem narrow_of_lt {width a : ℕ} (h : a < 2 ^ width) : narrow width a = .ok a :=
  if_pos h

/-! ### Refinement -/

/-- A computation refuses where a partial function has no value, and else has a value that is
related to its value. -/
def Refines (R : α → β → Prop) (x : Except Stop α) : Option β → Prop
  | none => x = .error .refused
  | some b => ∃ a, x = .ok a ∧ R a b

namespace Refines

/-- Related values refine each other. -/
theorem ok {R : α → β → Prop} {a : α} {b : β} (h : R a b) : Refines R (.ok a) (some b) :=
  ⟨a, rfl, h⟩

/-- **Step by step.** -/
theorem bind {α α' β β' : Type} {R : α → β → Prop} {S : α' → β' → Prop} {x : Except Stop α}
    {y : Option β} {f : α → Except Stop α'} {g : β → Option β'} (h : Refines R x y)
    (hrest : ∀ a b, R a b → Refines S (f a) (g b)) : Refines S (x >>= f) (y.bind g) := by
  cases y with
  | none =>
      have hx : x = .error .refused := h
      rw [hx]
      rfl
  | some b =>
      obtain ⟨a, rfl, hab⟩ := h
      exact hrest a b hab

/-- A step that only the code takes. -/
theorem refuse_bind {α α' β : Type} {S : α' → β → Prop} {x : Option α} {a : α}
    {f : α → Except Stop α'} {y : Option β} (hx : x = some a) (h : Refines S (f a) y) :
    Refines S (refuse x >>= f) y := by
  rw [hx]
  exact h

/-- Both check the same. -/
theorem ite {R : α → β → Prop} {p : Prop} [Decidable p] {x : Except Stop α} {y : Option β}
    (h : ¬p → Refines R x y) :
    Refines R (if p then .error .refused else x) (if p then none else y) := by
  by_cases hp : p
  · rw [if_pos hp, if_pos hp]
    rfl
  · rw [if_neg hp, if_neg hp]
    exact h hp

/-- Equal values. -/
theorem eq_refuse {x : Except Stop α} {y : Option α} (h : Refines Eq x y) : x = refuse y := by
  cases y with
  | none => exact h
  | some b =>
      obtain ⟨a, hx, rfl⟩ := h
      exact hx

end Refines

end Checked
