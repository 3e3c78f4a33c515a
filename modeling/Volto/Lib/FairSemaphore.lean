import Mathlib.Data.Finset.Card
import Mathlib.Data.List.Nodup
import Mathlib.Logic.Function.Basic

/-!
# Fair Semaphores

A semaphore hands out a fixed number of permits, each to a ticket. A ticket polls until its
permit is ready; tickets that find no permit free wait in a queue, and a permit that comes back
goes to the head of the queue before anybody else can poll for it. So a ticket may hold a permit
that it has not noticed yet. Dropping a ticket gives back its permit or leaves the queue.

`FairSemaphore` is any implementation with these laws and `FairSemaphore.reference` one of them.
`Accounts` relates a semaphore to what each ticket believes about its claim.

## Main results

* `Accounts.poll_ready`, `Accounts.poll_pending`, `Accounts.drop`: the operations keep the
  accounts, with the claim of their own ticket updated.
* `Accounts.drop_poll`: a newcomer that is dropped leaves no trace.
* `Accounts.ready_of_forall_held`: a ticket is ready where nobody else has a permit.
-/

universe u

/-- A semaphore that queues in order of arrival, over tickets of type `α`. -/
structure FairSemaphore (α : Type u) [DecidableEq α] where
  /-- The state of the semaphore. -/
  State : Type
  /-- A semaphore with a number of free permits. -/
  new : ℕ → State
  /-- Asks for the permit of a ticket: whether it is ready. -/
  poll : State → α → Bool × State
  /-- Drops a ticket, or the permit it stands for. -/
  drop : State → α → State
  /-- The permits that are nobody's. -/
  free : State → ℕ
  /-- The tickets that have a permit, whether or not they have been polled since. -/
  held : State → Finset α
  /-- The tickets that wait, in order. -/
  queue : State → List α
  free_new : ∀ n, free (new n) = n
  held_new : ∀ n, held (new n) = ∅
  queue_new : ∀ n, queue (new n) = []
  /-- A ticket with a permit is ready. -/
  poll_held : ∀ s a, a ∈ held s → poll s a = (true, s)
  /-- A ticket in the queue keeps its place. -/
  poll_queued : ∀ s a, a ∉ held s → a ∈ queue s → poll s a = (false, s)
  /-- A newcomer takes a free permit. -/
  poll_free : ∀ s a, a ∉ held s → a ∉ queue s → 0 < free s →
    (poll s a).1 = true ∧ free (poll s a).2 = free s - 1 ∧
      held (poll s a).2 = insert a (held s) ∧ queue (poll s a).2 = queue s
  /-- A newcomer queues when no permit is free. -/
  poll_full : ∀ s a, a ∉ held s → a ∉ queue s → free s = 0 →
    (poll s a).1 = false ∧ free (poll s a).2 = 0 ∧
      held (poll s a).2 = held s ∧ queue (poll s a).2 = queue s ++ [a]
  /-- A permit that comes back is free when nobody waits for it. -/
  drop_held_idle : ∀ s a, a ∈ held s → queue s = [] →
    free (drop s a) = free s + 1 ∧ held (drop s a) = (held s).erase a ∧ queue (drop s a) = []
  /-- A permit that comes back goes to the head of the queue. -/
  drop_held_next : ∀ s a b rest, a ∈ held s → queue s = b :: rest →
    free (drop s a) = free s ∧ held (drop s a) = insert b ((held s).erase a) ∧
      queue (drop s a) = rest
  /-- A waiter that is dropped leaves the queue. -/
  drop_queued : ∀ s a, a ∉ held s → a ∈ queue s →
    free (drop s a) = free s ∧ held (drop s a) = held s ∧ queue (drop s a) = (queue s).erase a

namespace FairSemaphore

variable {α : Type u} [DecidableEq α]

/-! ### An implementation -/

/-- A semaphore as its three observations. -/
structure Plain (α : Type) where
  free : ℕ
  held : Finset α
  queue : List α
deriving DecidableEq

namespace Plain

variable {β : Type} [DecidableEq β]

/-- A claimant asks: it is let in, or put at the end of the queue. -/
def poll (s : Plain β) (a : β) : Bool × Plain β :=
  if a ∈ s.held then (true, s)
  else if a ∈ s.queue then (false, s)
  else if 0 < s.free then (true, { s with free := s.free - 1, held := insert a s.held })
  else (false, { s with queue := s.queue ++ [a] })

/-- A claimant leaves: its permit goes to the first in the queue, or back. -/
def drop (s : Plain β) (a : β) : Plain β :=
  if a ∈ s.held then
    match s.queue with
    | [] => { s with free := s.free + 1, held := s.held.erase a }
    | b :: rest => { s with held := insert b (s.held.erase a), queue := rest }
  else { s with queue := s.queue.erase a }

end Plain

/-- The laws can be met. -/
def reference (β : Type) [DecidableEq β] : FairSemaphore β where
  State := Plain β
  new n := ⟨n, ∅, []⟩
  poll := Plain.poll
  drop := Plain.drop
  free := Plain.free
  held := Plain.held
  queue := Plain.queue
  free_new _ := rfl
  held_new _ := rfl
  queue_new _ := rfl
  poll_held s a h := by simp [Plain.poll, h]
  poll_queued s a h hq := by simp [Plain.poll, h, hq]
  poll_free s a h hq hfree := by simp [Plain.poll, h, hq, hfree]
  poll_full s a h hq hfree := by simp [Plain.poll, h, hq, hfree]
  drop_held_idle s a h hq := by simp [Plain.drop, h, hq]
  drop_held_next s a b rest h hq := by simp [Plain.drop, h, hq]
  drop_queued s a h hq := by simp [Plain.drop, h]

/-! ### Accounts -/

/-- What a ticket knows of its own claim. -/
inductive Claim
  /-- It has none: it was never polled, or it was dropped. -/
  | absent
  /-- Its last poll was pending. -/
  | waiting
  /-- Its permit was ready. -/
  | taken
deriving DecidableEq, Repr

/-- What a claim says about where its ticket stands. -/
def Claim.Fits (sem : FairSemaphore α) (s : sem.State) (a : α) : Claim → Prop
  | .absent => ¬(a ∈ sem.held s ∨ a ∈ sem.queue s)
  | .waiting => a ∈ sem.held s ∨ a ∈ sem.queue s
  | .taken => a ∈ sem.held s

/-- **The accounts of a semaphore**: every permit is free or some ticket's, nobody waits beside
a free permit, and the tickets with a permit or a place in the queue are those with a claim. -/
structure Accounts (sem : FairSemaphore α) (s : sem.State) (capacity : ℕ) (claim : α → Claim) :
    Prop where
  conserved : sem.free s + (sem.held s).card = capacity
  fair : 0 < sem.free s → sem.queue s = []
  nodup : (sem.queue s).Nodup
  apart : ∀ a ∈ sem.queue s, a ∉ sem.held s
  fits : ∀ a, (claim a).Fits sem s a

/-- The tickets keep their permits, and their places as far as they get no permit. -/
def Stands (sem : FairSemaphore α) (s s' : sem.State) (a : α) : Prop :=
  (a ∈ sem.held s → a ∈ sem.held s') ∧
    (a ∈ sem.held s' ∨ a ∈ sem.queue s' ↔ a ∈ sem.held s ∨ a ∈ sem.queue s)

namespace Accounts

variable {sem : FairSemaphore α} {s s' : sem.State} {capacity : ℕ} {claim : α → Claim} {a : α}

/-- The claims of the others survive an operation that leaves them standing. -/
theorem fits_update (h : Accounts sem s capacity claim) {c : Claim} (ha : c.Fits sem s' a)
    (hstands : ∀ b, b ≠ a → Stands sem s s' b) (b : α) :
    (Function.update claim a c b).Fits sem s' b := by
  by_cases hab : b = a
  · subst hab
    rwa [Function.update_self]
  · rw [Function.update_of_ne hab]
    obtain ⟨hheld, hiff⟩ := hstands b hab
    have hfits := h.fits b
    cases hclaim : claim b with
    | absent =>
        rw [hclaim] at hfits
        exact mt hiff.mp hfits
    | waiting =>
        rw [hclaim] at hfits
        exact hiff.mpr hfits
    | taken =>
        rw [hclaim] at hfits
        exact hheld hfits

/-- Nobody has claimed anything of a new semaphore. -/
theorem new (sem : FairSemaphore α) (capacity : ℕ) :
    Accounts sem (sem.new capacity) capacity fun _ => .absent where
  conserved := by rw [sem.free_new, sem.held_new, Finset.card_empty, Nat.add_zero]
  fair _ := sem.queue_new capacity
  nodup := by
    rw [sem.queue_new]
    exact List.nodup_nil
  apart a h := by
    rw [sem.queue_new] at h
    cases h
  fits a := by simp [Claim.Fits, sem.held_new, sem.queue_new]

/-- A ticket learns that its claim is as it was. -/
theorem keep (h : Accounts sem s capacity claim) {c : Claim} (hc : claim a = c) :
    Accounts sem s capacity (Function.update claim a c) := by
  rw [← hc, Function.update_eq_self]
  exact h

/-- Who has taken a permit holds one. -/
theorem mem_held (h : Accounts sem s capacity claim) (htaken : claim a = .taken) :
    a ∈ sem.held s := by
  have hfits := h.fits a
  rwa [htaken] at hfits

/-- Who waits holds a permit already or stands in the queue. -/
theorem mem_of_waiting (h : Accounts sem s capacity claim) (hwaiting : claim a = .waiting) :
    a ∈ sem.held s ∨ a ∈ sem.queue s := by
  have hfits := h.fits a
  rwa [hwaiting] at hfits

/-- Who has no claim holds no permit and stands in no queue. -/
theorem notMem_of_absent (h : Accounts sem s capacity claim) (habsent : claim a = .absent) :
    a ∉ sem.held s ∧ a ∉ sem.queue s := by
  have hfits := h.fits a
  rw [habsent] at hfits
  exact not_or.mp hfits

/-- Tickets that have noticed their permits are no more than the capacity. -/
theorem length_taken_le (h : Accounts sem s capacity claim) {tickets : List α}
    (hnodup : tickets.Nodup) (htaken : ∀ a ∈ tickets, claim a = .taken) :
    tickets.length ≤ capacity := by
  have hsub : tickets.toFinset ⊆ sem.held s :=
    fun a hmem => h.mem_held (htaken a (List.mem_toFinset.mp hmem))
  have hcard := Finset.card_le_card hsub
  rw [List.toFinset_card_of_nodup hnodup] at hcard
  have hconserved := h.conserved
  omega

/-- **A poll that is ready** takes the permit. -/
theorem poll_ready (h : Accounts sem s capacity claim) (hready : (sem.poll s a).1 = true) :
    Accounts sem (sem.poll s a).2 capacity (Function.update claim a .taken) := by
  by_cases hheld : a ∈ sem.held s
  · rw [sem.poll_held s a hheld]
    exact { h with fits := h.fits_update hheld fun b _ => ⟨id, Iff.rfl⟩ }
  · by_cases hqueue : a ∈ sem.queue s
    · rw [sem.poll_queued s a hheld hqueue] at hready
      cases hready
    · rcases Nat.eq_zero_or_pos (sem.free s) with hzero | hpos
      · rw [(sem.poll_full s a hheld hqueue hzero).1] at hready
        cases hready
      · obtain ⟨-, hfree, hheld', hqueue'⟩ := sem.poll_free s a hheld hqueue hpos
        have hempty := h.fair hpos
        have hconserved := h.conserved
        exact {
          conserved := by
            rw [hfree, hheld', Finset.card_insert_of_notMem hheld]
            omega
          fair := fun _ => hqueue'.trans hempty
          nodup := hqueue' ▸ h.nodup
          apart := by
            intro b hb
            rw [hqueue', hempty] at hb
            cases hb
          fits := by
            refine h.fits_update ?_ fun b hb => ?_
            · rw [Claim.Fits, hheld']
              exact Finset.mem_insert_self a _
            · rw [Stands, hheld', hqueue', Finset.mem_insert, or_iff_right hb]
              exact ⟨id, Iff.rfl⟩ }

/-- **A poll that is pending** leaves its ticket in the queue: nobody takes a permit from a ticket
that has noticed it. -/
theorem poll_pending (h : Accounts sem s capacity claim) (hpending : (sem.poll s a).1 = false) :
    claim a ≠ .taken ∧
      Accounts sem (sem.poll s a).2 capacity (Function.update claim a .waiting) := by
  by_cases hheld : a ∈ sem.held s
  · rw [sem.poll_held s a hheld] at hpending
    cases hpending
  · refine ⟨fun htaken => hheld (h.mem_held htaken), ?_⟩
    by_cases hqueue : a ∈ sem.queue s
    · rw [sem.poll_queued s a hheld hqueue]
      exact { h with fits := h.fits_update (.inr hqueue) fun b _ => ⟨id, Iff.rfl⟩ }
    · rcases Nat.eq_zero_or_pos (sem.free s) with hzero | hpos
      · obtain ⟨-, hfree, hheld', hqueue'⟩ := sem.poll_full s a hheld hqueue hzero
        have hconserved := h.conserved
        exact {
          conserved := by
            rw [hfree, hheld']
            omega
          fair := fun hpos => absurd hfree (Nat.ne_of_gt hpos)
          nodup := by
            rw [hqueue']
            exact List.nodup_append_comm.mp (List.nodup_cons.mpr ⟨hqueue, h.nodup⟩)
          apart := by
            intro b hb
            rw [hqueue', List.mem_append, List.mem_singleton] at hb
            rw [hheld']
            rcases hb with hb | rfl
            · exact h.apart b hb
            · exact hheld
          fits := by
            refine h.fits_update (.inr ?_) fun b hb => ?_
            · rw [hqueue']
              exact List.mem_append_right _ List.mem_cons_self
            · rw [Stands, hheld', hqueue', List.mem_append, List.mem_singleton, or_iff_left hb]
              exact ⟨id, Iff.rfl⟩ }
      · rw [(sem.poll_free s a hheld hqueue hpos).1] at hpending
        cases hpending

/-! Dropping a ticket is one of three things: its permit is free again, or the next waiter's, or
it leaves the queue. -/

/-- A permit nobody waits for goes back. -/
theorem dropHeldIdle (h : Accounts sem s capacity claim) (hheld : a ∈ sem.held s)
    (hnext : sem.queue s = []) :
    Accounts sem (sem.drop s a) capacity (Function.update claim a .absent) := by
  obtain ⟨hfree, hheld', hqueue'⟩ := sem.drop_held_idle s a hheld hnext
  exact {
    conserved := by
      have hconserved := h.conserved
      have hpos := Finset.card_pos.mpr ⟨a, hheld⟩
      rw [hfree, hheld', Finset.card_erase_of_mem hheld]
      omega
    fair := fun _ => hqueue'
    nodup := by
      rw [hqueue']
      exact List.nodup_nil
    apart := by
      intro b hb
      rw [hqueue'] at hb
      cases hb
    fits := by
      refine h.fits_update ?_ fun b hb => ?_
      · simp [Claim.Fits, hheld', hqueue']
      · rw [Stands, hheld', hqueue', hnext, Finset.mem_erase, and_iff_right hb]
        exact ⟨id, Iff.rfl⟩ }

/-- A permit goes to the first in the queue. -/
theorem dropHeldNext (h : Accounts sem s capacity claim) (hheld : a ∈ sem.held s) {next : α}
    {rest : List α} (hnext : sem.queue s = next :: rest) :
    Accounts sem (sem.drop s a) capacity (Function.update claim a .absent) := by
  obtain ⟨hfree, hheld', hqueue'⟩ := sem.drop_held_next s a next rest hheld hnext
  have hqueue : a ∉ sem.queue s := fun hmem => h.apart a hmem hheld
  rw [hnext, List.mem_cons, not_or] at hqueue
  have hnodup := h.nodup
  rw [hnext, List.nodup_cons] at hnodup
  have hnew : next ∉ (sem.held s).erase a := fun hmem =>
    h.apart next (hnext ▸ List.mem_cons_self) (Finset.mem_of_mem_erase hmem)
  exact {
    conserved := by
      have hconserved := h.conserved
      have hpos := Finset.card_pos.mpr ⟨a, hheld⟩
      rw [hfree, hheld', Finset.card_insert_of_notMem hnew, Finset.card_erase_of_mem hheld]
      omega
    fair := by
      intro hpos
      rw [hfree] at hpos
      rw [h.fair hpos] at hnext
      cases hnext
    nodup := hqueue' ▸ hnodup.2
    apart := by
      intro b hb
      rw [hqueue'] at hb
      rw [hheld', Finset.mem_insert, not_or]
      refine ⟨?_, fun hmem => ?_⟩
      · rintro rfl
        exact hnodup.1 hb
      · exact h.apart b (hnext ▸ List.mem_cons_of_mem next hb) (Finset.mem_of_mem_erase hmem)
    fits := by
      refine h.fits_update ?_ fun b hb => ?_
      · simp [Claim.Fits, hheld', hqueue', hqueue]
      · -- the next waiter has its place no more, but a permit
        rw [Stands, hheld', hqueue', hnext, Finset.mem_insert, Finset.mem_erase, List.mem_cons,
          and_iff_right hb]
        refine ⟨.inr, ?_⟩
        tauto }

/-- Who gives up waiting leaves the queue. -/
theorem dropQueued (h : Accounts sem s capacity claim) (hheld : a ∉ sem.held s)
    (hqueue : a ∈ sem.queue s) :
    Accounts sem (sem.drop s a) capacity (Function.update claim a .absent) := by
  obtain ⟨hfree, hheld', hqueue'⟩ := sem.drop_queued s a hheld hqueue
  exact {
    conserved := by
      rw [hfree, hheld']
      exact h.conserved
    fair := by
      intro hpos
      rw [hfree] at hpos
      rw [h.fair hpos] at hqueue
      cases hqueue
    nodup := by
      rw [hqueue']
      exact h.nodup.erase a
    apart := by
      intro b hb
      rw [hqueue'] at hb
      rw [hheld']
      exact h.apart b (List.mem_of_mem_erase hb)
    fits := by
      refine h.fits_update ?_ fun b hb => ?_
      · rw [Claim.Fits, hheld', hqueue', h.nodup.mem_erase_iff]
        tauto
      · rw [Stands, hheld', hqueue', List.mem_erase_of_ne hb]
        exact ⟨id, Iff.rfl⟩ }

/-- **A ticket that is dropped** leaves nothing behind. -/
theorem drop (h : Accounts sem s capacity claim) (hclaim : claim a ≠ .absent) :
    Accounts sem (sem.drop s a) capacity (Function.update claim a .absent) := by
  by_cases hheld : a ∈ sem.held s
  · cases hnext : sem.queue s with
    | nil => exact h.dropHeldIdle hheld hnext
    | cons next rest => exact h.dropHeldNext hheld hnext
  · cases hc : claim a with
    | absent => exact absurd hc hclaim
    | waiting => exact h.dropQueued hheld ((h.mem_of_waiting hc).resolve_left hheld)
    | taken => exact absurd (h.mem_held hc) hheld

end Accounts

/-- Every permit is free or that of a ticket with a claim. -/
def Conserves (sem : FairSemaphore α) (s : sem.State) (capacity : ℕ) (claim : α → Claim) : Prop :=
  sem.free s + (sem.held s).card = capacity ∧ ∀ a ∈ sem.held s, claim a ≠ .absent

/-- A semaphore that accounts for the claims conserves its permits. -/
theorem Accounts.conserves {sem : FairSemaphore α} {s : sem.State} {capacity : ℕ}
    {claim : α → Claim} (h : Accounts sem s capacity claim) : sem.Conserves s capacity claim :=
  ⟨h.conserved, fun _ hheld habsent => (h.notMem_of_absent habsent).1 hheld⟩

/-! ### A ticket that comes and goes -/

/-- Nothing can be observed of a difference. -/
def Same (sem : FairSemaphore α) (s s' : sem.State) : Prop :=
  sem.free s' = sem.free s ∧ sem.held s' = sem.held s ∧ sem.queue s' = sem.queue s

/-- A semaphore is the same as itself. -/
theorem Same.refl (sem : FairSemaphore α) (s : sem.State) : sem.Same s s :=
  ⟨rfl, rfl, rfl⟩

/-- **A newcomer that is dropped leaves no trace**, whether or not it was given a permit. -/
theorem Accounts.drop_poll {sem : FairSemaphore α} {s : sem.State} {capacity : ℕ}
    {claim : α → Claim} {a : α} (h : Accounts sem s capacity claim) (habsent : claim a = .absent) :
    sem.Same s (sem.drop (sem.poll s a).2 a) := by
  obtain ⟨hheld, hqueue⟩ := h.notMem_of_absent habsent
  rcases Nat.eq_zero_or_pos (sem.free s) with hzero | hpos
  · obtain ⟨-, hfree, hheld', hqueue'⟩ := sem.poll_full s a hheld hqueue hzero
    obtain ⟨hfree₂, hheld₂, hqueue₂⟩ := sem.drop_queued (sem.poll s a).2 a (hheld' ▸ hheld)
      (hqueue' ▸ List.mem_append_right _ List.mem_cons_self)
    refine ⟨hfree₂.trans (hfree.trans hzero.symm), hheld₂.trans hheld', ?_⟩
    rw [hqueue₂, hqueue', List.erase_append_right _ hqueue, List.erase_cons_head, List.append_nil]
  · obtain ⟨-, hfree, hheld', hqueue'⟩ := sem.poll_free s a hheld hqueue hpos
    have hempty := h.fair hpos
    obtain ⟨hfree₂, hheld₂, hqueue₂⟩ := sem.drop_held_idle (sem.poll s a).2 a
      (hheld' ▸ Finset.mem_insert_self a _) (hqueue'.trans hempty)
    refine ⟨?_, ?_, hqueue₂.trans hempty.symm⟩
    · omega
    · rw [hheld₂, hheld', Finset.erase_insert hheld]

/-! ### The line -/

/-- A ticket is first in line where everybody else who waits stands behind it: without a permit,
and in the queue only after it. -/
def FirstInLine (sem : FairSemaphore α) (s : sem.State) (waits : α → Prop) (a : α) : Prop :=
  ∀ b, b ≠ a → waits b →
    b ∉ sem.held s ∧ (b ∈ sem.queue s → a ∈ sem.held s ∨ [a, b].Sublist (sem.queue s))

/-- **A ticket is ready where nobody else has a permit**, of however many there are. -/
theorem Accounts.ready_of_forall_held {sem : FairSemaphore α} {s : sem.State} {capacity : ℕ}
    {claim : α → Claim} {a : α} (h : Accounts sem s capacity claim) (hcapacity : 0 < capacity)
    (hother : ∀ b ∈ sem.held s, b = a) : (sem.poll s a).1 = true := by
  by_cases hheld : a ∈ sem.held s
  · rw [sem.poll_held s a hheld]
  · have hempty : sem.held s = ∅ := by
      refine Finset.eq_empty_of_forall_notMem fun b hb => ?_
      obtain rfl := hother b hb
      exact hheld hb
    have hconserved := h.conserved
    rw [hempty, Finset.card_empty] at hconserved
    have hpos : 0 < sem.free s := by omega
    have hqueue : a ∉ sem.queue s := by
      rw [h.fair hpos]
      exact List.not_mem_nil
    exact (sem.poll_free s a hheld hqueue hpos).1

end FairSemaphore
