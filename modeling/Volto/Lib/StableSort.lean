import Mathlib.Data.List.Sort

/-!
# Stable Sorts by a Question

A stable sort whose key is a yes-or-no question moves those of which the answer is no to the
front, and leaves the order alone among those that answer alike.

## Main results

* `mergeSort_falseFirst`: what the sort does, as two filters.
-/

namespace StableSort

variable {α : Type*} (question : α → Bool)

/-- Those of which a question is false come first. -/
def falseFirst (a b : α) : Bool :=
  !question a || question b

/-- The order is transitive. -/
theorem falseFirst_trans (a b c : α) (hab : falseFirst question a b = true)
    (hbc : falseFirst question b c = true) : falseFirst question a c = true := by
  revert hab hbc
  simp only [falseFirst]
  cases question a <;> cases question b <;> simp

/-- The order is total. -/
theorem falseFirst_total (a b : α) :
    (falseFirst question a b || falseFirst question b a) = true := by
  simp only [falseFirst]
  cases question a <;> cases question b <;> rfl

/-- A list that has them first is its two halves. -/
theorem filter_append_filter {l : List α}
    (h : l.Pairwise fun a b => falseFirst question a b = true) :
    l.filter (fun a => !question a) ++ l.filter question = l := by
  induction l with
  | nil => rfl
  | cons a l ih =>
      obtain ⟨hfirst, hrest⟩ := List.pairwise_cons.mp h
      cases ha : question a with
      | false => simp [ha, ih hrest]
      | true =>
          have hall : ∀ b ∈ l, question b = true := fun b hb => by
            simpa [falseFirst, ha] using hfirst b hb
          have hnone : l.filter (fun a => !question a) = [] := by
            rw [List.filter_eq_nil_iff]
            exact fun b hb => by simp [hall b hb]
          rw [List.filter_cons_of_neg (by simp [ha]), List.filter_cons_of_pos ha, hnone,
            List.filter_eq_self.mpr hall]
          rfl

/-- The sort keeps the order of those that answer alike. -/
theorem filter_mergeSort (answer : Bool) (l : List α) :
    (l.mergeSort (falseFirst question)).filter (fun a => question a == answer) =
      l.filter fun a => question a == answer := by
  have halike : (l.filter fun a => question a == answer).Pairwise
      fun a b => falseFirst question a b = true := by
    refine List.pairwise_of_forall_mem_list fun a ha b hb => ?_
    have ha' := eq_of_beq (List.mem_filter.mp ha).2
    have hb' := eq_of_beq (List.mem_filter.mp hb).2
    simp [falseFirst, ha', hb']
  have hsub := (List.sublist_mergeSort (falseFirst_trans question) (falseFirst_total question)
    halike List.filter_sublist).filter fun a => question a == answer
  rw [List.filter_filter] at hsub
  simp only [Bool.and_self] at hsub
  exact (hsub.eq_of_length
    ((List.mergeSort_perm l (falseFirst question)).filter _).length_eq.symm).symm

/-- **A stable sort by a question** moves those of which it is false to the front. -/
theorem mergeSort_falseFirst (l : List α) :
    l.mergeSort (falseFirst question) =
      l.filter (fun a => !question a) ++ l.filter question := by
  have hfalse := filter_mergeSort question false l
  have htrue := filter_mergeSort question true l
  simp only [beq_false, beq_true] at hfalse htrue
  rw [← filter_append_filter question (List.pairwise_mergeSort (falseFirst_trans question)
    (falseFirst_total question) l), hfalse, htrue]

end StableSort
