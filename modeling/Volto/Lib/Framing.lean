import Mathlib.Data.List.Basic

/-!
# Framed Sequences

Items written one after the other, each by a partial function to bytes. `encodeAll` writes a
sequence, and `Between` are the places where its bytes can be cut without cutting an item.

## Main results

* `front_induction`: what a cut of a written sequence can be, from the front.
* `between_cons_append` and `not_between_of_part`: where the cut falls between two items.
-/

namespace Framing

variable {α β : Type*}

/-- Items one after the other, or `none` where one of them cannot be written. -/
def encodeAll (encode : α → Option (List β)) : List α → Option (List β)
  | [] => some []
  | item :: items => do
      let front ← encode item
      let rest ← encodeAll encode items
      pure (front ++ rest)

/-- The bytes of a sequence up to the end of one of its items, or to its start. -/
def Between (encode : α → Option (List β)) (items : List α) (front : List β) : Prop :=
  ∃ k, encodeAll encode (items.take k) = some front

variable {encode : α → Option (List β)} {item : α} {items : List α} {bytes front back : List β}

/-- The first item is encoded in front of the others. -/
theorem encodeAll_cons_eq_some :
    encodeAll encode (item :: items) = some bytes ↔
      ∃ head tail, encode item = some head ∧ encodeAll encode items = some tail ∧
        bytes = head ++ tail := by
  simp only [encodeAll, bind, Option.bind_eq_some_iff, pure, Option.some.injEq]
  constructor
  · rintro ⟨head, hhead, tail, htail, rfl⟩
    exact ⟨head, tail, hhead, htail, rfl⟩
  · rintro ⟨head, tail, hhead, htail, rfl⟩
    exact ⟨head, hhead, tail, htail, rfl⟩

/-- One more item at the end. -/
theorem encodeAll_concat (h : encodeAll encode items = some front)
    (hitem : encode item = some back) :
    encodeAll encode (items ++ [item]) = some (front ++ back) := by
  induction items generalizing front with
  | nil =>
      obtain rfl : [] = front := Option.some.inj h
      exact encodeAll_cons_eq_some.mpr ⟨back, [], hitem, rfl, (List.append_nil back).symm⟩
  | cons first items ih =>
      obtain ⟨head, tail, hhead, htail, rfl⟩ := encodeAll_cons_eq_some.mp h
      refine encodeAll_cons_eq_some.mpr ⟨head, tail ++ back, hhead, ih htail, ?_⟩
      exact List.append_assoc head tail back

/-- A sequence can be written when each of its items can. -/
theorem exists_encodeAll (h : ∀ item ∈ items, ∃ bytes, encode item = some bytes) :
    ∃ bytes, encodeAll encode items = some bytes := by
  induction items with
  | nil => exact ⟨[], rfl⟩
  | cons item items ih =>
      obtain ⟨head, hhead⟩ := h item List.mem_cons_self
      obtain ⟨tail, htail⟩ := ih fun i hi => h i (List.mem_cons_of_mem _ hi)
      exact ⟨head ++ tail, encodeAll_cons_eq_some.mpr ⟨head, tail, hhead, htail, rfl⟩⟩

/-- Before the first byte one is between items. -/
theorem between_nil : Between encode items [] :=
  ⟨0, rfl⟩

/-- After a whole item the cut is one of the rest of the sequence. -/
theorem between_cons_append (h : encode item = some bytes) (hne : bytes ≠ []) :
    Between encode (item :: items) (bytes ++ front) ↔ Between encode items front := by
  constructor
  · rintro ⟨k, hk⟩
    cases k with
    | zero =>
        have hnil : bytes ++ front = [] := (Option.some.inj hk).symm
        exact absurd (List.append_eq_nil_iff.mp hnil).1 hne
    | succ k =>
        rw [List.take_succ_cons, encodeAll_cons_eq_some] at hk
        obtain ⟨head, tail, hhead, htail, heq⟩ := hk
        rw [h, Option.some.injEq] at hhead
        subst hhead
        rw [List.append_cancel_left heq]
        exact ⟨k, htail⟩
  · rintro ⟨k, hk⟩
    refine ⟨k + 1, ?_⟩
    rw [List.take_succ_cons]
    exact encodeAll_cons_eq_some.mpr ⟨bytes, front, h, hk, rfl⟩

/-- Inside an item the cut is not between two of them. -/
theorem not_between_of_part (h : encode item = some (front ++ back)) (hfront : front ≠ [])
    (hback : back ≠ []) : ¬Between encode (item :: items) front := by
  rintro ⟨k, hk⟩
  cases k with
  | zero => exact hfront (Option.some.inj hk).symm
  | succ k =>
      rw [List.take_succ_cons, encodeAll_cons_eq_some] at hk
      obtain ⟨head, tail, hhead, -, heq⟩ := hk
      rw [h, Option.some.injEq] at hhead
      subst hhead
      have hlen := congrArg List.length heq
      have hpos := List.length_pos_iff.mpr hback
      simp only [List.length_append] at hlen
      omega

/-- **Where a written sequence can be cut**: at its start, inside its first item, or after that
item somewhere in the rest. -/
theorem front_induction {motive : List α → List β → Prop}
    (start : ∀ items, motive items [])
    (part : ∀ {item items front back}, encode item = some (front ++ back) → front ≠ [] →
      back ≠ [] → motive (item :: items) front)
    (whole : ∀ {item items bytes front}, encode item = some bytes → motive items front →
      motive (item :: items) (bytes ++ front))
    (h : encodeAll encode items = some (front ++ back)) : motive items front := by
  induction items generalizing front with
  | nil =>
      have hnil : front ++ back = [] := (Option.some.inj h).symm
      rw [(List.append_eq_nil_iff.mp hnil).1]
      exact start []
  | cons item items ih =>
      obtain ⟨head, tail, hhead, htail, heq⟩ := encodeAll_cons_eq_some.mp h
      rcases List.append_eq_append_iff.mp heq with ⟨more, rfl, hback⟩ | ⟨more, rfl, htail'⟩
      · by_cases hfront : front = []
        · subst hfront
          exact start _
        by_cases hmore : more = []
        · subst hmore
          rw [List.append_nil] at hhead
          rw [← List.append_nil front]
          exact whole hhead (start items)
        · exact part hhead hfront hmore
      · subst htail'
        exact whole hhead (ih htail)

end Framing
