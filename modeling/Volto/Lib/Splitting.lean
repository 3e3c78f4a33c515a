import Mathlib.Data.List.Basic

/-!
# Splitting at a Separator

The first and the last occurrence of a separator cut a list in two, and all of them cut it into
segments. Each cut is told by what it leaves: the separator is not in the part that was searched.

## Main results

* `splitOnce_eq_some`, `rsplitOnce_eq_some`: the cuts at the first and at the last occurrence.
* `splitOn_eq_pair`: a list of two segments.
* `mem_intercalate`, `mem_intercalate_of_mem`: what a list holds whose segments are known.
-/

namespace Splitting

variable {α : Type*} [DecidableEq α]

/-- The parts before and after the first occurrence of a separator. -/
def splitOnce (sep : α) : List α → Option (List α × List α)
  | [] => none
  | a :: l => if a = sep then some ([], l) else (splitOnce sep l).map (Prod.map (a :: ·) id)

/-- The parts before and after the last occurrence of a separator. -/
def rsplitOnce (sep : α) : List α → Option (List α × List α)
  | [] => none
  | a :: l =>
      match rsplitOnce sep l with
      | some (before, after) => some (a :: before, after)
      | none => if a = sep then some ([], l) else none

variable {sep : α} {l before after : List α}

/-- A list is split at its first separator. -/
theorem splitOnce_append (h : sep ∉ before) :
    splitOnce sep (before ++ sep :: after) = some (before, after) := by
  induction before with
  | nil => rw [List.nil_append, splitOnce, if_pos rfl]
  | cons a before ih =>
      rw [List.mem_cons, not_or] at h
      rw [List.cons_append, splitOnce, if_neg (Ne.symm h.1), ih h.2]
      rfl

/-- There is one cut at the first occurrence. -/
theorem append_cons_inj {before' after' : List α} (h : sep ∉ before) (h' : sep ∉ before')
    (heq : before ++ sep :: after = before' ++ sep :: after') :
    before = before' ∧ after = after' := by
  have hcut : splitOnce sep (before ++ sep :: after) = some (before, after) := splitOnce_append h
  rw [heq, splitOnce_append h', Option.some.injEq, Prod.mk.injEq] at hcut
  exact ⟨hcut.1.symm, hcut.2.symm⟩

/-- **The cut at the first occurrence.** -/
theorem splitOnce_eq_some :
    splitOnce sep l = some (before, after) ↔ l = before ++ sep :: after ∧ sep ∉ before := by
  constructor
  · intro h
    induction l generalizing before with
    | nil => cases h
    | cons a l ih =>
        rw [splitOnce] at h
        split_ifs at h with ha
        · cases h
          exact ⟨by rw [ha, List.nil_append], List.not_mem_nil⟩
        · obtain ⟨⟨rest, after'⟩, hrest, heq⟩ := Option.map_eq_some_iff.mp h
          cases heq
          obtain ⟨rfl, hnot⟩ := ih hrest
          exact ⟨rfl, by simpa [Ne.symm ha] using hnot⟩
  · rintro ⟨rfl, hnot⟩
    exact splitOnce_append hnot

/-- A list without a separator is not split. -/
theorem rsplitOnce_eq_none : rsplitOnce sep l = none ↔ sep ∉ l := by
  induction l with
  | nil => exact iff_of_true rfl List.not_mem_nil
  | cons a l ih =>
      rw [rsplitOnce, List.mem_cons, not_or, ← ih]
      cases rsplitOnce sep l with
      | some rest => simp
      | none => simp [eq_comm]

/-- A list is split at its last separator. -/
theorem rsplitOnce_append (h : sep ∉ after) :
    rsplitOnce sep (before ++ sep :: after) = some (before, after) := by
  induction before with
  | nil => rw [List.nil_append, rsplitOnce, rsplitOnce_eq_none.mpr h, if_pos rfl]
  | cons a before ih => rw [List.cons_append, rsplitOnce, ih]

/-- **The cut at the last occurrence.** -/
theorem rsplitOnce_eq_some :
    rsplitOnce sep l = some (before, after) ↔ l = before ++ sep :: after ∧ sep ∉ after := by
  constructor
  · intro h
    induction l generalizing before with
    | nil => cases h
    | cons a l ih =>
        rw [rsplitOnce] at h
        cases hrest : rsplitOnce sep l with
        | some rest =>
            rw [hrest] at h
            cases h
            obtain ⟨rfl, hnot⟩ := ih hrest
            exact ⟨rfl, hnot⟩
        | none =>
            rw [hrest] at h
            split_ifs at h with ha
            cases h
            exact ⟨by rw [ha, List.nil_append], rsplitOnce_eq_none.mp hrest⟩
  · rintro ⟨rfl, hnot⟩
    exact rsplitOnce_append hnot

/-- No segment holds the separator. -/
theorem not_mem_of_mem_splitOn {segment : List α} (h : segment ∈ l.splitOn sep) :
    sep ∉ segment := by
  induction l generalizing segment with
  | nil =>
      rw [List.splitOn_nil, List.mem_singleton] at h
      rw [h]
      exact List.not_mem_nil
  | cons a l ih =>
      rw [List.splitOn_cons_eq_if_modifyHead] at h
      split_ifs at h with ha
      · rcases List.mem_cons.mp h with rfl | h
        · exact List.not_mem_nil
        · exact ih h
      · cases hsegments : l.splitOn sep with
        | nil => exact absurd hsegments (List.splitOn_ne_nil sep l)
        | cons first rest =>
            rw [hsegments] at h ih
            rcases List.mem_cons.mp h with rfl | h
            · have hfirst := ih List.mem_cons_self
              have hne : sep ≠ a := fun heq => ha (by simp [heq])
              simpa [hne] using hfirst
            · exact ih (List.mem_cons_of_mem _ h)

/-- **A list of two segments.** -/
theorem splitOn_eq_pair :
    l.splitOn sep = [before, after] ↔ l = before ++ sep :: after ∧ sep ∉ before ∧ sep ∉ after := by
  constructor
  · intro h
    have hall : ∀ segment ∈ [before, after], sep ∉ segment := by
      rw [← h]
      exact fun segment hmem => not_mem_of_mem_splitOn hmem
    refine ⟨?_, hall before (by simp), hall after (by simp)⟩
    have heq : [sep].intercalate (l.splitOn sep) = l := List.intercalate_splitOn sep
    rw [h] at heq
    simpa [List.intercalate] using heq.symm
  · rintro ⟨rfl, hbefore, hafter⟩
    rw [List.splitOn_append_cons_self_of_not_mem hbefore, List.splitOn_eq_singleton hafter]

omit [DecidableEq α] in
/-- What a list holds is the separator, or in a segment. -/
theorem mem_intercalate {segments : List (List α)} {a : α} (h : a ∈ [sep].intercalate segments) :
    a = sep ∨ ∃ segment ∈ segments, a ∈ segment := by
  induction segments with
  | nil => exact absurd h List.not_mem_nil
  | cons first segments ih =>
      obtain - | ⟨second, segments⟩ := segments
      · rw [List.intercalate_singleton] at h
        exact .inr ⟨first, List.mem_cons_self, h⟩
      rw [List.intercalate_cons_cons, List.mem_append, List.mem_append, List.mem_singleton] at h
      obtain (h | h) | h := h
      · exact .inr ⟨first, List.mem_cons_self, h⟩
      · exact .inl h
      · obtain h | ⟨segment, hsegment, hmem⟩ := ih h
        · exact .inl h
        · exact .inr ⟨segment, List.mem_cons_of_mem _ hsegment, hmem⟩

omit [DecidableEq α] in
/-- What is in a segment is in the list. -/
theorem mem_intercalate_of_mem {segments : List (List α)} {segment : List α} {a : α}
    (hsegment : segment ∈ segments) (h : a ∈ segment) : a ∈ [sep].intercalate segments := by
  induction segments with
  | nil => exact absurd hsegment List.not_mem_nil
  | cons first segments ih =>
      obtain - | ⟨second, segments⟩ := segments
      · rw [List.mem_singleton] at hsegment
        rwa [List.intercalate_singleton, ← hsegment]
      rw [List.intercalate_cons_cons, List.mem_append, List.mem_append]
      obtain rfl | hsegment := List.mem_cons.mp hsegment
      · exact .inl (.inl h)
      · exact .inr (ih hsegment)

end Splitting
