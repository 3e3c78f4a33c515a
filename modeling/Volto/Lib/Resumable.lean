import Mathlib.Algebra.Order.Ring.Nat

/-!
# Resumable Readers

A reader that keeps its input in its own state: bytes are pushed into it at any time, and a
loop takes outputs out of it until it has to wait for more. `Loop` is such a reader, given by
one pass of its loop and a weight that every pass makes smaller, so that `next`, the loop up to
its next output, and `drain`, the calls of `next` up to the first wait, are total.

The loop is *resumable* when waiting is no loss: whatever a pass does, it does with more input
behind it too. Then a drained reader that gets more input ends where it would have ended had
the input been there from the start, and the way the input was cut cannot be told from the
outputs.

## Main results

* `Loop.next_of_wait`: a reader that waits is left as it is.
* `Loop.Resumes.drain_push`: draining before a push changes nothing.
* `Loop.Resumes.feed_eq`: a run over chunks is one drain of their concatenation.
-/

namespace Resumable

variable {σ ω ι : Type*}

/-- What one pass of the loop does: ask for more input, go round again, or hand out an
output. -/
inductive Pass (σ ω : Type*)
  | wait
  | again (s : σ)
  | emit (out : ω) (s : σ)

/-- A loop with a weight that bounds its passes. -/
structure Loop (σ ω : Type*) where
  pass : σ → Pass σ ω
  weight : σ → ℕ
  again_lt : ∀ {s s'}, pass s = .again s' → weight s' < weight s
  emit_lt : ∀ {s s' out}, pass s = .emit out s' → weight s' < weight s

namespace Loop

variable (L : Loop σ ω)

/-- The next output, or `none` when more input is needed. -/
def next (s : σ) : Option ω × σ :=
  match _h : L.pass s with
  | .wait => (none, s)
  | .again s' => next s'
  | .emit out s' => (some out, s')
termination_by L.weight s
decreasing_by exact L.again_lt _h

variable {L}

/-- A pass that waits gives nothing. -/
theorem next_of_wait {s : σ} (h : L.pass s = .wait) : L.next s = (none, s) := by
  rw [next]
  split
  · rfl
  · rename_i heq
    rw [h] at heq
    cases heq
  · rename_i heq
    rw [h] at heq
    cases heq

/-- A pass that only moved on is followed by the next. -/
theorem next_of_again {s s' : σ} (h : L.pass s = .again s') : L.next s = L.next s' := by
  rw [next]
  split
  · rename_i heq
    rw [h] at heq
    cases heq
  · rename_i heq
    rw [h] at heq
    cases heq
    rfl
  · rename_i heq
    rw [h] at heq
    cases heq

/-- A pass that emits gives what it emits. -/
theorem next_of_emit {s s' : σ} {out : ω} (h : L.pass s = .emit out s') :
    L.next s = (some out, s') := by
  rw [next]
  split
  · rename_i heq
    rw [h] at heq
    cases heq
  · rename_i heq
    rw [h] at heq
    cases heq
  · rename_i heq
    rw [h] at heq
    cases heq
    rfl

/-- **The rule for the loop**: what holds of a waiting state and of a state that hands out an
output, and is carried back over every pass that goes round again, holds of `next`. -/
theorem next_induction {motive : σ → Option ω × σ → Prop}
    (wait : ∀ s, L.pass s = .wait → motive s (none, s))
    (again : ∀ s s' r, L.pass s = .again s' → motive s' r → motive s r)
    (emit : ∀ s s' out, L.pass s = .emit out s' → motive s (some out, s')) (s : σ) :
    motive s (L.next s) := by
  induction hw : L.weight s using Nat.strong_induction_on generalizing s with
  | _ w ih =>
      cases h : L.pass s with
      | wait =>
          rw [next_of_wait h]
          exact wait s h
      | again s' =>
          rw [next_of_again h]
          exact again s s' _ h (ih _ (hw ▸ L.again_lt h) s' rfl)
      | emit out s' =>
          rw [next_of_emit h]
          exact emit s s' out h

/-- An output makes the state lighter. -/
theorem weight_lt_of_next {s s' : σ} {out : ω} (h : L.next s = (some out, s')) :
    L.weight s' < L.weight s := by
  have key := next_induction (L := L)
    (motive := fun s r => r.1.isSome = true → L.weight r.2 < L.weight s)
    (fun s _ hsome => by cases hsome)
    (fun s s' r hpass ih hsome => (ih hsome).trans (L.again_lt hpass))
    (fun s s' out hpass _ => L.emit_lt hpass) s
  rw [h] at key
  exact key rfl

/-- A call that returns nothing leaves a state that waits. -/
theorem pass_of_next_none {s s' : σ} (h : L.next s = (none, s')) : L.pass s' = .wait := by
  have key := next_induction (L := L)
    (motive := fun _ r => r.1 = none → L.pass r.2 = .wait)
    (fun s hwait _ => hwait) (fun s s' r _ ih hnone => ih hnone)
    (fun s s' out _ hnone => by cases hnone) s
  rw [h] at key
  exact key rfl

variable (L)

/-- The outputs up to the first wait, and the state that waits. -/
def drain (s : σ) : List ω × σ :=
  match _h : L.next s with
  | (none, s') => ([], s')
  | (some out, s') => (out :: (drain s').1, (drain s').2)
termination_by L.weight s
decreasing_by all_goals exact weight_lt_of_next _h

variable {L}

/-- Where nothing is next, nothing is drained. -/
theorem drain_of_none {s s' : σ} (h : L.next s = (none, s')) : L.drain s = ([], s') := by
  rw [drain]
  split
  · rename_i heq
    rw [h] at heq
    cases heq
    rfl
  · rename_i heq
    rw [h] at heq
    cases heq

/-- What is next is drained first. -/
theorem drain_of_some {s s' : σ} {out : ω} (h : L.next s = (some out, s')) :
    L.drain s = (out :: (L.drain s').1, (L.drain s').2) := by
  rw [drain]
  split
  · rename_i heq
    rw [h] at heq
    cases heq
  · rename_i heq
    rw [h] at heq
    cases heq
    rfl

/-- A pass that waits drains nothing. -/
theorem drain_of_wait {s : σ} (h : L.pass s = .wait) : L.drain s = ([], s) :=
  drain_of_none (next_of_wait h)

/-- A pass that only moved on drains what the next does. -/
theorem drain_of_again {s s' : σ} (h : L.pass s = .again s') : L.drain s = L.drain s' := by
  obtain ⟨out, t, hnext⟩ : ∃ out t, L.next s' = (out, t) := ⟨_, _, rfl⟩
  cases out with
  | none => rw [drain_of_none hnext, drain_of_none ((next_of_again h).trans hnext)]
  | some out => rw [drain_of_some hnext, drain_of_some ((next_of_again h).trans hnext)]

/-- A pass that emits drains that first. -/
theorem drain_of_emit {s s' : σ} {out : ω} (h : L.pass s = .emit out s') :
    L.drain s = (out :: (L.drain s').1, (L.drain s').2) :=
  drain_of_some (next_of_emit h)

/-- **The rule for draining**, one case for each thing a pass can do. -/
theorem drain_induction {motive : σ → List ω × σ → Prop}
    (wait : ∀ s, L.pass s = .wait → motive s ([], s))
    (again : ∀ s s' r, L.pass s = .again s' → motive s' r → motive s r)
    (emit : ∀ s s' out r, L.pass s = .emit out s' → motive s' r → motive s (out :: r.1, r.2))
    (s : σ) : motive s (L.drain s) := by
  induction hw : L.weight s using Nat.strong_induction_on generalizing s with
  | _ w ih =>
      cases h : L.pass s with
      | wait =>
          rw [drain_of_wait h]
          exact wait s h
      | again s' =>
          rw [drain_of_again h]
          exact again s s' _ h (ih _ (hw ▸ L.again_lt h) s' rfl)
      | emit out s' =>
          rw [drain_of_emit h]
          exact emit s s' out _ h (ih _ (hw ▸ L.emit_lt h) s' rfl)

/-- A drained state waits. -/
theorem pass_drain (s : σ) : L.pass (L.drain s).2 = .wait :=
  drain_induction (motive := fun _ r => L.pass r.2 = .wait) (fun _ h => h)
    (fun _ _ _ _ ih => ih) (fun _ _ _ _ _ ih => ih) s

/-! ### Input in pieces -/

variable (L)

/-- Pushes the chunks one after the other, draining the reader after each. -/
def feed (push : σ → List ι → σ) (s : σ) : List (List ι) → List ω × σ
  | [] => ([], s)
  | chunk :: chunks =>
      let (out, s) := L.drain (push s chunk)
      let (rest, s) := feed push s chunks
      (out ++ rest, s)

/-- A reader that loses nothing by waiting: an output is the same with more input behind it,
and after a pass that goes round again more input leads to the same outputs. -/
structure Resumes (push : σ → List ι → σ) : Prop where
  push_nil : ∀ s, push s [] = s
  push_append : ∀ s chunk chunk', push (push s chunk) chunk' = push s (chunk ++ chunk')
  again : ∀ {s s'}, L.pass s = .again s' → ∀ more, L.drain (push s more) = L.drain (push s' more)
  emit : ∀ {s s' out}, L.pass s = .emit out s' → ∀ more,
    L.pass (push s more) = .emit out (push s' more)

variable {L} {push : σ → List ι → σ}

/-- **Draining before a push changes nothing**: the outputs taken early come first, and the
rest are those of the drained reader. -/
theorem Resumes.drain_push (h : L.Resumes push) (s : σ) (more : List ι) :
    L.drain (push s more) =
      ((L.drain s).1 ++ (L.drain (push (L.drain s).2 more)).1,
        (L.drain (push (L.drain s).2 more)).2) := by
  refine drain_induction (motive := fun s r => L.drain (push s more) =
    (r.1 ++ (L.drain (push r.2 more)).1, (L.drain (push r.2 more)).2)) ?_ ?_ ?_ s
  · intro s _
    rfl
  · intro s s' r hpass ih
    rw [h.again hpass, ih]
  · intro s s' out r hpass ih
    rw [drain_of_emit (h.emit hpass more), ih]
    rfl

/-- **A run over chunks is one drain of their concatenation.** -/
theorem Resumes.feed_eq (h : L.Resumes push) {s : σ} (hwait : L.pass s = .wait)
    (chunks : List (List ι)) : L.feed push s chunks = L.drain (push s chunks.flatten) := by
  induction chunks generalizing s with
  | nil =>
      rw [List.flatten_nil, h.push_nil, drain_of_wait hwait]
      rfl
  | cons chunk chunks ih =>
      rw [List.flatten_cons, ← h.push_append, h.drain_push, ← ih (pass_drain _)]
      rfl

end Loop

end Resumable
