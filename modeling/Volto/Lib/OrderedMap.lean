import Mathlib.Data.List.Basic
import Mathlib.Order.Lattice

/-!
# Ordered Maps

A finite map whose entries stand in the order of their keys, as a search tree iterates over them.
The entries are a list with strictly increasing keys, so that a map is what it iterates over.

## Main results

* `mem_insert`, `mem_remove`: the entries after an insertion and after a removal.
* `get?_eq_some_iff`: a key stands for its entry.
* `entries_remove_of_split`: a removal takes one entry out from between its neighbours.
* `prefix_of_downward_closed`: where entries are taken in order, those that are gone are the first.
-/

universe u v

/-- A finite map with its entries in the order of their keys. -/
structure OrderedMap (κ : Type u) (α : Type v) [LinearOrder κ] where
  entries : List (κ × α)
  sorted : entries.Pairwise fun a b => a.1 < b.1
deriving DecidableEq

namespace OrderedMap

variable {κ : Type u} {α : Type v} [LinearOrder κ]

/-- The map without entries. -/
def empty : OrderedMap κ α :=
  ⟨[], .nil⟩

/-- Where an entry goes. An entry with the same key gives way. -/
def insertEntry (k : κ) (a : α) : List (κ × α) → List (κ × α)
  | [] => [(k, a)]
  | e :: rest =>
      if k < e.1 then (k, a) :: e :: rest
      else if k = e.1 then (k, a) :: rest
      else e :: insertEntry k a rest

/-- What is there after an insertion, where the keys increase. -/
theorem mem_insertEntry {k : κ} {a : α} {entries : List (κ × α)}
    (hsorted : entries.Pairwise fun a b => a.1 < b.1) {p : κ × α} :
    p ∈ insertEntry k a entries ↔ p = (k, a) ∨ (p ∈ entries ∧ p.1 ≠ k) := by
  induction entries with
  | nil => simp [insertEntry]
  | cons e rest ih =>
      obtain ⟨hfirst, hrest⟩ := List.pairwise_cons.mp hsorted
      rw [insertEntry]
      split_ifs with hlt heq
      · -- every key is greater than the new one
        have hne : ∀ q ∈ e :: rest, q.1 ≠ k := by
          intro q hq
          rcases List.mem_cons.mp hq with rfl | hq
          · exact hlt.ne'
          · exact (hlt.trans (hfirst q hq)).ne'
        rw [List.mem_cons]
        exact or_congr_right ⟨fun hp => ⟨hp, hne p hp⟩, And.left⟩
      · have hne : ∀ q ∈ rest, q.1 ≠ k := fun q hq => (heq ▸ hfirst q hq).ne'
        rw [List.mem_cons]
        refine or_congr_right ⟨fun hp => ⟨List.mem_cons_of_mem _ hp, hne p hp⟩, ?_⟩
        rintro ⟨hp, hpk⟩
        rcases List.mem_cons.mp hp with rfl | hp
        · exact absurd heq.symm hpk
        · exact hp
      · rw [List.mem_cons, ih hrest, List.mem_cons]
        constructor
        · rintro (rfl | rfl | ⟨hp, hpk⟩)
          · exact .inr ⟨.inl rfl, Ne.symm heq⟩
          · exact .inl rfl
          · exact .inr ⟨.inr hp, hpk⟩
        · rintro (rfl | ⟨rfl | hp, hpk⟩)
          · exact .inr (.inl rfl)
          · exact .inl rfl
          · exact .inr (.inr ⟨hp, hpk⟩)

/-- Insertion keeps the entries sorted. -/
theorem sorted_insertEntry (k : κ) (a : α) {entries : List (κ × α)}
    (hsorted : entries.Pairwise fun a b => a.1 < b.1) :
    (insertEntry k a entries).Pairwise fun a b => a.1 < b.1 := by
  induction entries with
  | nil => exact List.pairwise_singleton _ _
  | cons e rest ih =>
      obtain ⟨hfirst, hrest⟩ := List.pairwise_cons.mp hsorted
      rw [insertEntry]
      split_ifs with hlt heq
      · refine List.pairwise_cons.mpr ⟨fun q hq => ?_, hsorted⟩
        rcases List.mem_cons.mp hq with rfl | hq
        · exact hlt
        · exact hlt.trans (hfirst q hq)
      · exact List.pairwise_cons.mpr ⟨fun q hq => heq ▸ hfirst q hq, hrest⟩
      · refine List.pairwise_cons.mpr ⟨fun q hq => ?_, ih hrest⟩
        rcases (mem_insertEntry hrest).mp hq with rfl | ⟨hq, -⟩
        · exact lt_of_le_of_ne (not_lt.mp hlt) (Ne.symm heq)
        · exact hfirst q hq

variable (m : OrderedMap κ α)

/-- The map with an entry put in. -/
def insert (k : κ) (a : α) : OrderedMap κ α :=
  ⟨insertEntry k a m.entries, sorted_insertEntry k a m.sorted⟩

/-- The map without a key. -/
def remove (k : κ) : OrderedMap κ α :=
  ⟨m.entries.filter (·.1 ≠ k), m.sorted.filter _⟩

/-- What a key stands for. -/
def get? (k : κ) : Option α :=
  (m.entries.find? (·.1 = k)).map Prod.snd

/-- The number of entries. -/
def length : ℕ :=
  m.entries.length

variable {m} {k : κ} {a b : α} {p : κ × α}

/-- Insertion puts its own entry and keeps those of the other keys. -/
@[simp] theorem mem_insert :
    p ∈ (m.insert k a).entries ↔ p = (k, a) ∨ (p ∈ m.entries ∧ p.1 ≠ k) :=
  mem_insertEntry m.sorted

/-- Removal keeps the entries of the other keys. -/
@[simp] theorem mem_remove : p ∈ (m.remove k).entries ↔ p ∈ m.entries ∧ p.1 ≠ k := by
  simp [remove]

/-- A removal takes one entry out from between its neighbours. -/
theorem entries_remove_of_split {front back : List (κ × α)}
    (h : m.entries = front ++ (k, a) :: back) : (m.remove k).entries = front ++ back := by
  have hsorted := m.sorted
  rw [h] at hsorted
  obtain ⟨-, hback, hfront⟩ := List.pairwise_append.mp hsorted
  have hkeep : ∀ q ∈ front ++ back, decide (q.1 ≠ k) = true := by
    intro q hq
    rw [decide_eq_true_iff]
    rcases List.mem_append.mp hq with hq | hq
    · exact (hfront q hq (k, a) List.mem_cons_self).ne
    · exact ((List.pairwise_cons.mp hback).1 q hq).ne'
  calc (m.remove k).entries
      = (front ++ (k, a) :: back).filter (·.1 ≠ k) := congrArg _ h
    _ = (front ++ back).filter (·.1 ≠ k) := by
        rw [List.filter_append, List.filter_cons_of_neg (by simp), ← List.filter_append]
    _ = front ++ back := List.filter_eq_self.mpr hkeep

/-- Removal of an entry takes one away. -/
theorem length_remove_of_mem (h : (k, a) ∈ m.entries) :
    (m.remove k).length + 1 = m.length := by
  obtain ⟨front, back, hsplit⟩ := List.append_of_mem h
  rw [length, length, entries_remove_of_split hsplit, hsplit]
  simp only [List.length_append, List.length_cons]
  omega

/-- A key has one entry. -/
theorem get?_of_mem (h : (k, a) ∈ m.entries) : m.get? k = some a := by
  obtain ⟨front, back, hsplit⟩ := List.append_of_mem h
  have hsorted := m.sorted
  rw [hsplit] at hsorted
  have hne : ∀ q ∈ front, ¬decide (q.1 = k) = true := by
    intro q hq
    rw [decide_eq_true_iff]
    exact ((List.pairwise_append.mp hsorted).2.2 q hq (k, a) List.mem_cons_self).ne
  rw [get?, hsplit, List.find?_append, List.find?_eq_none.mpr hne, Option.none_or,
    List.find?_cons_of_pos (by simp)]
  rfl

/-- A lookup finds exactly the entry of the key. -/
theorem get?_eq_some_iff : m.get? k = some a ↔ (k, a) ∈ m.entries := by
  refine ⟨fun h => ?_, get?_of_mem⟩
  obtain ⟨entry, hfind, rfl⟩ := Option.map_eq_some_iff.mp h
  have hkey := List.find?_some hfind
  obtain rfl : entry.1 = k := of_decide_eq_true hkey
  exact List.mem_of_find?_eq_some hfind

/-- There is one entry for a key. -/
theorem eq_of_key_eq {entries : List (κ × α)} (hsorted : entries.Pairwise fun a b => a.1 < b.1)
    {p q : κ × α} (hp : p ∈ entries) (hq : q ∈ entries) (h : p.1 = q.1) : p = q := by
  have hget := get?_of_mem (m := ⟨entries, hsorted⟩) hp
  rw [h, get?_of_mem (m := ⟨entries, hsorted⟩) hq, Option.some.injEq] at hget
  exact Prod.ext h hget.symm

/-- **Where entries are taken in the order of their keys, those that are gone are the first.** -/
theorem prefix_of_downward_closed {gone whole : List (κ × α)}
    (hgone : gone.Pairwise fun a b => a.1 < b.1) (hwhole : whole.Pairwise fun a b => a.1 < b.1)
    (hsubset : gone ⊆ whole) (hdown : ∀ g ∈ gone, ∀ w ∈ whole, w.1 < g.1 → w ∈ gone) :
    gone <+: whole := by
  induction whole generalizing gone with
  | nil => exact (List.subset_nil.mp hsubset).symm ▸ List.nil_prefix
  | cons w whole ih =>
      cases gone with
      | nil => exact List.nil_prefix
      | cons g gone =>
          obtain ⟨hg, hgone⟩ := List.pairwise_cons.mp hgone
          obtain ⟨hw, hrest⟩ := List.pairwise_cons.mp hwhole
          -- the first that is gone is the first there was
          have hfirst : g = w := by
            rcases List.mem_cons.mp (hsubset List.mem_cons_self) with rfl | hmem
            · rfl
            · have hlt := hw g hmem
              rcases List.mem_cons.mp (hdown g List.mem_cons_self w List.mem_cons_self hlt) with
                rfl | hmem'
              · rfl
              · exact absurd hlt (hg w hmem').asymm
          subst hfirst
          refine List.prefix_cons_inj g |>.mpr (ih hgone hrest (fun q hq => ?_) ?_)
          · rcases List.mem_cons.mp (hsubset (List.mem_cons_of_mem _ hq)) with rfl | hmem
            · exact absurd (hg q hq) (lt_irrefl _)
            · exact hmem
          · intro q hq r hr hlt
            rcases List.mem_cons.mp
              (hdown q (List.mem_cons_of_mem _ hq) r (List.mem_cons_of_mem _ hr) hlt) with
              rfl | hmem
            · exact absurd (hw r hr) (lt_irrefl _)
            · exact hmem

end OrderedMap
