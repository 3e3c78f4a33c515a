import Mathlib.Data.List.Induction

/-!
# Histories

A system that takes steps, and the history of a run: each event with the state it found. Claims
about "the last time that" are claims about the part of a history since its last moment of some
kind, which grows with the run until the next such moment starts it anew.

## Main results

* `run_invariant`: what every step keeps, every run keeps.
* `exists_last`: what only one event brings about goes back to the last of them.
* `exists_mem_history`, `iff_exists_mem_history`: what has come about goes back to the moments that
  bring it about.
* `history_concat`, `sinceLast_concat`: what one more event does.
-/

namespace History

variable {σ ε α : Type*}

/-- A run. -/
def run (step : σ → ε → σ) (s : σ) (events : List ε) : σ :=
  events.foldl step s

/-- **What every step keeps, every run keeps.** -/
theorem run_invariant {step : σ → ε → σ} {P : σ → Prop} (hstep : ∀ s event, P s → P (step s event))
    {s : σ} (h : P s) (events : List ε) : P (run step s events) :=
  List.foldlRecOn (motive := P) events step h fun s hs event _ => hstep s event hs

/-- The events of a run, each with the state it found. -/
def history (step : σ → ε → σ) (s : σ) : List ε → List (σ × ε)
  | [] => []
  | event :: events => (s, event) :: history step (step s event) events

/-- A run ends with its last event. -/
@[simp] theorem run_concat (step : σ → ε → σ) (s : σ) (events : List ε) (event : ε) :
    run step s (events ++ [event]) = step (run step s events) event := by
  rw [run, run, List.foldl_append, List.foldl_cons, List.foldl_nil]

/-- **What an event has brought about, and nothing else does, goes back to the last such event**:
`Q` comes about where the event finds the state as `R` says, and other events only carry it on. -/
theorem exists_last {step : σ → ε → σ} {Q : σ → Prop} {R : σ → σ → Prop} {s : σ} {event : ε}
    (hnew : ¬Q s)
    (hevent : ∀ front, Q (step (run step s front) event) →
      R (run step s front) (step (run step s front) event))
    (hbeside : ∀ t e, e ≠ event → Q (step t e) → Q t ∧ ∀ r, R r t → R r (step t e))
    {events : List ε} (h : Q (run step s events)) :
    ∃ front beside, events = front ++ event :: beside ∧ event ∉ beside ∧
      R (run step s front) (run step s events) := by
  induction events using List.reverseRecOn with
  | nil => exact absurd h hnew
  | append_singleton events e ih =>
      rw [run_concat] at h ⊢
      by_cases he : e = event
      · subst he
        exact ⟨events, [], rfl, List.not_mem_nil, hevent events h⟩
      · obtain ⟨hbefore, hkeeps⟩ := hbeside _ e he h
        obtain ⟨front, beside, rfl, hbeside', hr⟩ := ih hbefore
        refine ⟨front, beside ++ [e], by simp, ?_, hkeeps _ hr⟩
        rw [List.mem_append, List.mem_singleton, not_or]
        exact ⟨hbeside', Ne.symm he⟩

/-- A history ends with its last event, and the state it met. -/
@[simp] theorem history_concat (step : σ → ε → σ) (s : σ) (events : List ε) (event : ε) :
    history step s (events ++ [event]) = history step s events ++ [(run step s events, event)] := by
  induction events generalizing s with
  | nil => rfl
  | cons first events ih =>
      rw [List.cons_append, history, history, ih, List.cons_append]
      rfl

/-- The moments of a run are its events, each after those before it. -/
theorem mem_history_iff {step : σ → ε → σ} {s t : σ} {event : ε} {events : List ε} :
    (t, event) ∈ history step s events ↔
      ∃ front rest, events = front ++ event :: rest ∧ t = run step s front := by
  induction events generalizing s with
  | nil => simp [history]
  | cons first events ih =>
      rw [history, List.mem_cons, ih]
      constructor
      · rintro (heq | ⟨front, rest, rfl, rfl⟩)
        · obtain ⟨rfl, rfl⟩ := Prod.mk.inj heq
          exact ⟨[], events, rfl, rfl⟩
        · exact ⟨first :: front, rest, rfl, rfl⟩
      · rintro ⟨front, rest, heq, rfl⟩
        cases front with
        | nil =>
            obtain ⟨rfl, -⟩ := List.cons.inj heq
            exact Or.inl rfl
        | cons other front =>
            obtain ⟨rfl, rfl⟩ := List.cons.inj heq
            exact Or.inr ⟨front, rest, rfl, rfl⟩

/-- **What has come about goes back to a moment that brought it about.** -/
theorem exists_mem_history {step : σ → ε → σ} {Q : σ → Prop} {R : σ → ε → Prop} {s : σ}
    (hnew : ¬Q s) (hstep : ∀ t event, Q (step t event) → Q t ∨ R t event) {events : List ε}
    (h : Q (run step s events)) : ∃ t event, (t, event) ∈ history step s events ∧ R t event := by
  induction events using List.reverseRecOn with
  | nil => exact absurd h hnew
  | append_singleton events event ih =>
      rw [run_concat] at h
      rw [history_concat]
      rcases hstep _ event h with hbefore | hr
      · obtain ⟨t, e, hmem, hr⟩ := ih hbefore
        exact ⟨t, e, List.mem_append_left _ hmem, hr⟩
      · exact ⟨_, event, List.mem_append_right _ (List.mem_singleton_self _), hr⟩

/-- **What certain events bring about for good has come about exactly where the history has one of
them.** -/
theorem iff_exists_mem_history {step : σ → ε → σ} {Q : σ → Prop} {R : σ → ε → Prop} {s : σ}
    (hnew : ¬Q s) (hstep : ∀ t event, Q (step t event) ↔ Q t ∨ R t event) (events : List ε) :
    Q (run step s events) ↔ ∃ t event, (t, event) ∈ history step s events ∧ R t event := by
  refine ⟨exists_mem_history hnew fun t event => (hstep t event).mp, ?_⟩
  rintro ⟨t, event, hmem, hr⟩
  obtain ⟨front, rest, rfl, rfl⟩ := mem_history_iff.mp hmem
  rw [run, List.foldl_append, List.foldl_cons]
  exact run_invariant (fun t event h => (hstep t event).mpr (Or.inl h))
    ((hstep _ event).mpr (Or.inr hr)) rest

/-- The part of a list from its last element of some kind on, or all of it when there is none. -/
def sinceLast (p : α → Bool) : List α → List α
  | [] => []
  | a :: l => if l.any p then sinceLast p l else a :: l

/-- **One more element**: it starts the part anew, or is added to it. -/
theorem sinceLast_concat (p : α → Bool) (l : List α) (a : α) :
    sinceLast p (l ++ [a]) = if p a then [a] else sinceLast p l ++ [a] := by
  induction l with
  | nil => cases p a <;> rfl
  | cons b l ih =>
      rw [List.cons_append, sinceLast, sinceLast, ih, List.any_append]
      cases ha : p a <;> cases hl : l.any p <;> simp [ha]

end History
