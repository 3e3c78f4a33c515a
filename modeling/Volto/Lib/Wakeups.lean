import Mathlib.Data.Finset.Basic
import Mathlib.Data.List.Nodup

/-!
# Permits and Wakeups

Two primitives of an asynchronous runtime, each as any implementation with its laws and with one
that meets them. A `PermitPool` counts permits that nobody queues for. A `Notify` passes wakeups
on to tickets: a notification goes to the ticket that has waited longest, and is kept for the next
poll when nobody waits. A ticket that is dropped with a notification it has not noticed hands it
on.

`Tidy` relates a `Notify` to the tickets that wait for it, and `Heard` says that a ticket will be
ready when it is next polled.

## Main results

* `Tidy.notifyOne`, `Tidy.poll_ready`, `Tidy.poll_pending`, `Tidy.drop`: the operations keep it.
* `heard_notifyOne`: a ticket that waits alone hears every notification.
* `Tidy.ready_of_heard`: what was heard is not lost.
-/

universe u

/-- A semaphore with permits that are taken if they are there, and never waited for. -/
structure PermitPool where
  State : Type
  new : ℕ → State
  /-- Takes a permit, if there is one. -/
  tryAcquire : State → Option State
  release : State → State
  available : State → ℕ
  /-- What the pool can count to. -/
  maxPermits : ℕ
  available_new : ∀ n, n ≤ maxPermits → available (new n) = n
  tryAcquire_zero : ∀ s, available s = 0 → tryAcquire s = none
  tryAcquire_pos : ∀ s, 0 < available s → ∃ s', tryAcquire s = some s' ∧
    available s' + 1 = available s
  available_release : ∀ s, available s < maxPermits → available (release s) = available s + 1

namespace PermitPool

/-- A pool as its number of permits. -/
def reference (maxPermits : ℕ) : PermitPool where
  State := ℕ
  new n := n
  tryAcquire
    | 0 => none
    | n + 1 => some n
  release n := n + 1
  available n := n
  maxPermits := maxPermits
  available_new _ _ := rfl
  tryAcquire_zero s h := by
    subst h
    rfl
  tryAcquire_pos s h := by
    cases s with
    | zero => exact absurd h (Nat.lt_irrefl 0)
    | succ n => exact ⟨n, rfl, rfl⟩
  available_release _ _ := rfl

variable {pool : PermitPool} {s : pool.State}

/-- A permit is taken where there is one. -/
theorem tryAcquire_isSome : (pool.tryAcquire s).isSome = true ↔ 0 < pool.available s := by
  rcases Nat.eq_zero_or_pos (pool.available s) with hzero | hpos
  · rw [pool.tryAcquire_zero s hzero, hzero]
    simp
  · obtain ⟨s', hs', -⟩ := pool.tryAcquire_pos s hpos
    rw [hs']
    simp [hpos]

/-- A permit that was taken is no longer available. -/
theorem available_of_tryAcquire {s' : pool.State} (h : pool.tryAcquire s = some s') :
    pool.available s' + 1 = pool.available s := by
  have hpos : 0 < pool.available s := tryAcquire_isSome.mp (by rw [h]; rfl)
  obtain ⟨s'', hs'', havailable⟩ := pool.tryAcquire_pos s hpos
  rw [h, Option.some.injEq] at hs''
  exact hs'' ▸ havailable

end PermitPool

/-- Notifications over tickets of type `α`. -/
structure Notify (α : Type u) [DecidableEq α] where
  State : Type
  new : State
  notifyOne : State → State
  /-- Polls a ticket: whether it was notified. -/
  poll : State → α → Bool × State
  /-- Drops a ticket. -/
  drop : State → α → State
  /-- Whether a notification is kept for the next poll. -/
  permit : State → Bool
  /-- The tickets that wait, in order. -/
  waiting : State → List α
  /-- The tickets that were notified and have not been polled since. -/
  notified : State → Finset α
  permit_new : permit new = false
  waiting_new : waiting new = []
  notified_new : notified new = ∅
  /-- A notification is kept when nobody waits. -/
  notifyOne_idle : ∀ s, waiting s = [] →
    permit (notifyOne s) = true ∧ waiting (notifyOne s) = [] ∧
      notified (notifyOne s) = notified s
  /-- A notification goes to the ticket that has waited longest. -/
  notifyOne_next : ∀ s a rest, waiting s = a :: rest →
    permit (notifyOne s) = permit s ∧ waiting (notifyOne s) = rest ∧
      notified (notifyOne s) = insert a (notified s)
  /-- A ticket that was notified is ready. -/
  poll_notified : ∀ s a, a ∈ notified s →
    (poll s a).1 = true ∧ permit (poll s a).2 = permit s ∧
      waiting (poll s a).2 = waiting s ∧ notified (poll s a).2 = (notified s).erase a
  /-- A ticket that waits keeps its place. -/
  poll_waiting : ∀ s a, a ∉ notified s → a ∈ waiting s → poll s a = (false, s)
  /-- A newcomer takes the notification that was kept. -/
  poll_permit : ∀ s a, a ∉ notified s → a ∉ waiting s → permit s = true →
    (poll s a).1 = true ∧ permit (poll s a).2 = false ∧
      waiting (poll s a).2 = waiting s ∧ notified (poll s a).2 = notified s
  /-- A newcomer waits when none was kept. -/
  poll_park : ∀ s a, a ∉ notified s → a ∉ waiting s → permit s = false →
    (poll s a).1 = false ∧ permit (poll s a).2 = false ∧
      waiting (poll s a).2 = waiting s ++ [a] ∧ notified (poll s a).2 = notified s
  /-- A ticket that was notified hands it on: it is kept when nobody waits. -/
  drop_notified_idle : ∀ s a, a ∈ notified s → waiting s = [] →
    permit (drop s a) = true ∧ waiting (drop s a) = [] ∧
      notified (drop s a) = (notified s).erase a
  /-- A ticket that was notified hands it on to the next. -/
  drop_notified_next : ∀ s a b rest, a ∈ notified s → waiting s = b :: rest →
    permit (drop s a) = permit s ∧ waiting (drop s a) = rest ∧
      notified (drop s a) = insert b ((notified s).erase a)
  /-- A ticket that waits loses its place. -/
  drop_waiting : ∀ s a, a ∉ notified s → a ∈ waiting s →
    permit (drop s a) = permit s ∧ waiting (drop s a) = (waiting s).erase a ∧
      notified (drop s a) = notified s

namespace Notify

/-! ### An implementation -/

/-- Notifications as their three observations. -/
structure Plain (β : Type) where
  permit : Bool
  waiting : List β
  notified : Finset β
deriving DecidableEq

namespace Plain

variable {β : Type} [DecidableEq β]

/-- Wakes the first who waits, or leaves a permit for the next. -/
def notifyOne (s : Plain β) : Plain β :=
  match s.waiting with
  | [] => { s with permit := true }
  | a :: rest => { s with waiting := rest, notified := insert a s.notified }

/-- A task asks: it was woken, takes the permit, or waits. -/
def poll (s : Plain β) (a : β) : Bool × Plain β :=
  if a ∈ s.notified then (true, { s with notified := s.notified.erase a })
  else if a ∈ s.waiting then (false, s)
  else if s.permit then (true, { s with permit := false })
  else (false, { s with waiting := s.waiting ++ [a] })

/-- A task leaves, and passes on a wake-up it did not use. -/
def drop (s : Plain β) (a : β) : Plain β :=
  if a ∈ s.notified then notifyOne { s with notified := s.notified.erase a }
  else { s with waiting := s.waiting.erase a }

end Plain

/-- The laws can be met. -/
def reference (β : Type) [DecidableEq β] : Notify β where
  State := Plain β
  new := ⟨false, [], ∅⟩
  notifyOne := Plain.notifyOne
  poll := Plain.poll
  drop := Plain.drop
  permit := Plain.permit
  waiting := Plain.waiting
  notified := Plain.notified
  permit_new := rfl
  waiting_new := rfl
  notified_new := rfl
  notifyOne_idle s h := by simp [Plain.notifyOne, h]
  notifyOne_next s a rest h := by simp [Plain.notifyOne, h]
  poll_notified s a h := by simp [Plain.poll, h]
  poll_waiting s a h hw := by simp [Plain.poll, h, hw]
  poll_permit s a h hw hp := by simp [Plain.poll, h, hw, hp]
  poll_park s a h hw hp := by simp [Plain.poll, h, hw, hp]
  drop_notified_idle s a h hw := by simp [Plain.drop, Plain.notifyOne, h, hw]
  drop_notified_next s a b rest h hw := by simp [Plain.drop, Plain.notifyOne, h, hw]
  drop_waiting s a h hw := by simp [Plain.drop, h]

/-! ### The tickets that wait -/

variable {α : Type u} [DecidableEq α] {n : Notify α} {s s' : n.State} {parked parked' : α → Prop}
  {a : α}

/-- **Who waits**: no ticket is in two places, nobody waits beside a notification that is kept,
and the tickets that are parked are those that wait or were notified. -/
structure Tidy (n : Notify α) (s : n.State) (parked : α → Prop) : Prop where
  nodup : (n.waiting s).Nodup
  apart : ∀ a ∈ n.waiting s, a ∉ n.notified s
  spent : n.permit s = true → n.waiting s = []
  parked : ∀ a, parked a ↔ a ∈ n.notified s ∨ a ∈ n.waiting s

/-- A ticket that will be ready when it is polled. -/
def Heard (n : Notify α) (s : n.State) (a : α) : Prop :=
  n.permit s = true ∨ a ∈ n.notified s

/-- Nobody waits on a new notify. -/
theorem tidy_new (h : ∀ a, ¬parked a) : Tidy n n.new parked where
  nodup := by
    rw [n.waiting_new]
    exact List.nodup_nil
  apart a ha := by
    rw [n.waiting_new] at ha
    cases ha
  spent _ := n.waiting_new
  parked a := by simp [h a, n.waiting_new, n.notified_new]

/-- Tidiness asks only who is parked. -/
theorem Tidy.congr (h : Tidy n s parked) (hparked : ∀ a, parked' a ↔ parked a) :
    Tidy n s parked' :=
  { h with parked := fun a => (hparked a).trans (h.parked a) }

/-- A notification moves the first that waits. -/
theorem Tidy.notifyOne (h : Tidy n s parked) : Tidy n (n.notifyOne s) parked := by
  cases hwaiting : n.waiting s with
  | nil =>
      obtain ⟨-, hwaiting', hnotified⟩ := n.notifyOne_idle s hwaiting
      refine ⟨hwaiting' ▸ List.nodup_nil, fun a ha => ?_, fun _ => hwaiting', fun a => ?_⟩
      · rw [hwaiting'] at ha
        cases ha
      · rw [h.parked a, hwaiting, hwaiting', hnotified]
  | cons b rest =>
      obtain ⟨hpermit, hwaiting', hnotified⟩ := n.notifyOne_next s b rest hwaiting
      have hnodup := h.nodup
      rw [hwaiting, List.nodup_cons] at hnodup
      refine ⟨hwaiting' ▸ hnodup.2, fun a ha => ?_, fun hkept => ?_, fun a => ?_⟩
      · rw [hwaiting'] at ha
        rw [hnotified, Finset.mem_insert, not_or]
        refine ⟨fun heq => hnodup.1 (heq ▸ ha), h.apart a ?_⟩
        rw [hwaiting]
        exact List.mem_cons_of_mem _ ha
      · rw [hpermit] at hkept
        cases hwaiting.symm.trans (h.spent hkept)
      · rw [h.parked a, hwaiting, hwaiting', hnotified, Finset.mem_insert, List.mem_cons,
          or_left_comm, or_assoc]

/-- A poll that is ready. -/
theorem Tidy.poll_ready (h : Tidy n s parked) (hready : (n.poll s a).1 = true)
    (ha : ¬parked' a) (hothers : ∀ b, b ≠ a → (parked' b ↔ parked b)) :
    Tidy n (n.poll s a).2 parked' := by
  by_cases hnotified : a ∈ n.notified s
  · obtain ⟨-, hpermit, hwaiting, hnotified'⟩ := n.poll_notified s a hnotified
    refine ⟨hwaiting ▸ h.nodup, fun b hb => ?_, fun hkept => ?_, fun b => ?_⟩
    · rw [hwaiting] at hb
      rw [hnotified']
      exact fun hmem => h.apart b hb (Finset.mem_of_mem_erase hmem)
    · rw [hwaiting]
      exact h.spent (hpermit ▸ hkept)
    · rw [hwaiting, hnotified', Finset.mem_erase]
      by_cases hb : b = a
      · subst hb
        simp only [ha, ne_eq, not_true_eq_false, false_and, false_or, false_iff]
        exact fun hmem => h.apart b hmem hnotified
      · rw [hothers b hb, h.parked b, and_iff_right hb]
  · by_cases hwaits : a ∈ n.waiting s
    · rw [n.poll_waiting s a hnotified hwaits] at hready
      cases hready
    · cases hkept : n.permit s with
      | false =>
          rw [(n.poll_park s a hnotified hwaits hkept).1] at hready
          cases hready
      | true =>
          obtain ⟨-, hpermit, hwaiting, hnotified'⟩ := n.poll_permit s a hnotified hwaits hkept
          refine ⟨hwaiting ▸ h.nodup, ?_, fun _ => hwaiting.trans (h.spent hkept), fun b => ?_⟩
          · rw [hwaiting, hnotified']
            exact h.apart
          · rw [hwaiting, hnotified']
            by_cases hb : b = a
            · subst hb
              simp [ha, hnotified, hwaits]
            · rw [hothers b hb, h.parked b]

/-- A poll that is pending. -/
theorem Tidy.poll_pending (h : Tidy n s parked) (hpending : (n.poll s a).1 = false)
    (ha : parked' a) (hothers : ∀ b, b ≠ a → (parked' b ↔ parked b)) :
    Tidy n (n.poll s a).2 parked' := by
  by_cases hnotified : a ∈ n.notified s
  · rw [(n.poll_notified s a hnotified).1] at hpending
    cases hpending
  · by_cases hwaits : a ∈ n.waiting s
    · rw [n.poll_waiting s a hnotified hwaits]
      refine h.congr fun b => ?_
      by_cases hb : b = a
      · subst hb
        simp [ha, h.parked b, hwaits]
      · exact hothers b hb
    · cases hkept : n.permit s with
      | true =>
          rw [(n.poll_permit s a hnotified hwaits hkept).1] at hpending
          cases hpending
      | false =>
          obtain ⟨-, hpermit, hwaiting, hnotified'⟩ := n.poll_park s a hnotified hwaits hkept
          refine ⟨?_, fun b hb => ?_, fun hkept' => ?_, fun b => ?_⟩
          · rw [hwaiting]
            exact List.nodup_append_comm.mp (List.nodup_cons.mpr ⟨hwaits, h.nodup⟩)
          · rw [hwaiting, List.mem_append, List.mem_singleton] at hb
            rw [hnotified']
            rcases hb with hb | rfl
            · exact h.apart b hb
            · exact hnotified
          · cases hpermit.symm.trans hkept'
          · rw [hwaiting, hnotified', List.mem_append, List.mem_singleton]
            by_cases hb : b = a
            · subst hb
              simp [ha]
            · rw [hothers b hb, h.parked b, or_iff_left hb]

/-- A parked ticket is dropped. -/
theorem Tidy.drop (h : Tidy n s parked) (hparked : parked a) (ha : ¬parked' a)
    (hothers : ∀ b, b ≠ a → (parked' b ↔ parked b)) : Tidy n (n.drop s a) parked' := by
  by_cases hnotified : a ∈ n.notified s
  · have hwaits : a ∉ n.waiting s := fun hmem => h.apart a hmem hnotified
    cases hwaiting : n.waiting s with
    | nil =>
        obtain ⟨-, hwaiting', hnotified'⟩ := n.drop_notified_idle s a hnotified hwaiting
        refine ⟨hwaiting' ▸ List.nodup_nil, fun b hb => ?_, fun _ => hwaiting', fun b => ?_⟩
        · rw [hwaiting'] at hb
          cases hb
        · rw [hwaiting', hnotified', Finset.mem_erase]
          by_cases hb : b = a
          · subst hb
            simp [ha]
          · rw [hothers b hb, h.parked b, hwaiting, and_iff_right hb]
    | cons c rest =>
        obtain ⟨hpermit, hwaiting', hnotified'⟩ :=
          n.drop_notified_next s a c rest hnotified hwaiting
        have hnodup := h.nodup
        rw [hwaiting, List.nodup_cons] at hnodup
        rw [hwaiting, List.mem_cons, not_or] at hwaits
        refine ⟨hwaiting' ▸ hnodup.2, fun b hb => ?_, fun hkept => ?_, fun b => ?_⟩
        · rw [hwaiting'] at hb
          rw [hnotified', Finset.mem_insert, not_or]
          refine ⟨fun heq => hnodup.1 (heq ▸ hb), fun hmem => h.apart b ?_ ?_⟩
          · rw [hwaiting]
            exact List.mem_cons_of_mem _ hb
          · exact Finset.mem_of_mem_erase hmem
        · rw [hpermit] at hkept
          cases hwaiting.symm.trans (h.spent hkept)
        · rw [hwaiting', hnotified', Finset.mem_insert, Finset.mem_erase]
          by_cases hb : b = a
          · subst hb
            simp [ha, hwaits.1, hwaits.2]
          · rw [hothers b hb, h.parked b, hwaiting, List.mem_cons, and_iff_right hb, or_left_comm,
              or_assoc]
  · have hwaits : a ∈ n.waiting s := ((h.parked a).mp hparked).resolve_left hnotified
    obtain ⟨hpermit, hwaiting, hnotified'⟩ := n.drop_waiting s a hnotified hwaits
    refine ⟨hwaiting ▸ h.nodup.erase a, fun b hb => ?_, fun hkept => ?_, fun b => ?_⟩
    · rw [hwaiting] at hb
      rw [hnotified']
      exact h.apart b (List.mem_of_mem_erase hb)
    · rw [hpermit] at hkept
      rw [hwaiting, h.spent hkept]
      rfl
    · rw [hwaiting, hnotified', h.nodup.mem_erase_iff]
      by_cases hb : b = a
      · subst hb
        simp [ha, hnotified]
      · rw [hothers b hb, h.parked b, and_iff_right hb]

/-! ### What a ticket hears -/

/-- **What was heard is not lost**: the next poll is ready. -/
theorem Tidy.ready_of_heard (h : Tidy n s parked) (hheard : Heard n s a) :
    (n.poll s a).1 = true := by
  by_cases hnotified : a ∈ n.notified s
  · exact (n.poll_notified s a hnotified).1
  · have hkept := hheard.resolve_right hnotified
    have hwaits : a ∉ n.waiting s := by
      rw [h.spent hkept]
      exact List.not_mem_nil
    exact (n.poll_permit s a hnotified hwaits hkept).1

/-- **A ticket that waits alone hears every notification.** -/
theorem heard_notifyOne (halone : ∀ b ∈ n.waiting s, b = a) : Heard n (n.notifyOne s) a := by
  cases hwaiting : n.waiting s with
  | nil => exact .inl (n.notifyOne_idle s hwaiting).1
  | cons b rest =>
      obtain rfl : b = a := halone b (by rw [hwaiting]; exact List.mem_cons_self)
      refine .inr ?_
      rw [(n.notifyOne_next s b rest hwaiting).2.2]
      exact Finset.mem_insert_self b _

end Notify
