import Mathlib.Data.List.Basic

/-!
# Chunks

A list cut into chunks of one length, the last of which may be shorter, and what a change of every
chunk by itself does to the list.

## Main results

* `IsCut.flatten`: the chunks make up the list.
* `exists_chunk_of_ne`: a changed element is a changed element of a chunk.
-/

namespace Chunks

variable {α : Type*}

/-- A list and its chunks of `n` elements each, in order: only the last may be shorter, and none is
empty. -/
inductive IsCut (n : ℕ) : List α → List (List α) → Prop
  | nil : IsCut n [] []
  | last {l : List α} (hne : l ≠ []) (hle : l.length ≤ n) : IsCut n l [l]
  | cons {first rest : List α} {chunks : List (List α)} (hfirst : first.length = n)
      (hne : rest ≠ []) (h : IsCut n rest chunks) : IsCut n (first ++ rest) (first :: chunks)

/-- The chunks of a cut join to what was cut. -/
theorem IsCut.flatten {n : ℕ} {l : List α} {chunks : List (List α)} (h : IsCut n l chunks) :
    chunks.flatten = l := by
  induction h with
  | nil => rfl
  | last => exact List.flatten_singleton
  | cons _ _ _ ih => rw [List.flatten_cons, ih]

/-- Nothing is cut into no chunks. -/
theorem IsCut.eq_nil {n : ℕ} {chunks : List (List α)} (h : IsCut n [] chunks) : chunks = [] := by
  generalize hl : ([] : List α) = l at h
  cases h with
  | nil => rfl
  | last hne => exact absurd hl.symm hne
  | cons _ hne => exact absurd (List.append_eq_nil_iff.mp hl.symm).2 hne

/-- One more chunk at the front, which is full if anything follows it. -/
theorem IsCut.append {n : ℕ} {first rest : List α} {chunks : List (List α)} (hne : first ≠ [])
    (hle : first.length ≤ n) (hfull : rest ≠ [] → first.length = n) (h : IsCut n rest chunks) :
    IsCut n (first ++ rest) (first :: chunks) := by
  by_cases hrest : rest = []
  · subst hrest
    rw [h.eq_nil, List.append_nil]
    exact .last hne hle
  · exact .cons (hfull hrest) hrest h

/-- **A changed element is a changed element of a chunk**, when chunks keep their lengths. -/
theorem exists_chunk_of_ne {f : List α → List α}
    (hlength : ∀ chunk, (f chunk).length = chunk.length) {chunks : List (List α)} {i : ℕ}
    (h : (chunks.map f).flatten[i]? ≠ chunks.flatten[i]?) :
    ∃ before chunk after j, chunks = before ++ chunk :: after ∧ i = before.flatten.length + j ∧
      (f chunk)[j]? ≠ chunk[j]? := by
  induction chunks generalizing i with
  | nil => exact absurd rfl h
  | cons first chunks ih =>
      rw [List.map_cons, List.flatten_cons, List.flatten_cons] at h
      rcases Nat.lt_or_ge i first.length with hi | hi
      · rw [List.getElem?_append_left (by rwa [hlength]), List.getElem?_append_left hi] at h
        exact ⟨[], first, chunks, i, rfl, by simp, h⟩
      · rw [List.getElem?_append_right (by rwa [hlength]), List.getElem?_append_right hi,
          hlength] at h
        obtain ⟨before, chunk, after, j, rfl, hj, hne⟩ := ih h
        refine ⟨first :: before, chunk, after, j, rfl, ?_, hne⟩
        rw [List.flatten_cons, List.length_append]
        omega

end Chunks
