import Mathlib.Data.List.Induction
import Mathlib.Data.List.Perm.Subperm
import Volto.Lib.History
import Volto.Quic.Roster

/-!
# Evictions

What a call of `evict_until_below` does while it holds the lock of the roster (`Sweep`), what it
knows at each of its steps (`Knows`), and what of it holds over every run. A connection is a
candidate as its gate was read: a gate that opens between that read and the removal of its slot
comes too late.

## Main results

* `Sweep.eq_take`: whom a call takes while no gate opens.
* `Inv.step`: what holds at every moment.
* `exists_returned`: every call returns.
* `slots_taken_from_strangers`: connection slots are taken only from strangers, as their gates
  were read, and none is leaked.
-/

namespace Volto

namespace Quic

namespace Roster

variable {Addr : Type} {s : Roster Addr} {call : Call Addr} {phase : Phase Addr}

/-! ### What a call has done -/

/-- **What a call has done since it took the lock**: it has taken connections whose gates were
closed then, in the order of their numbers, each because the roster was at the cap. It has left
all others, and of these every one older than a victim is open. -/
structure Sweep (call : Call Addr) (taken left : List (Entry Addr)) (opened : List ℕ) : Prop where
  sorted : call.found.Pairwise fun a b => a.1 < b.1
  increasing : taken.Pairwise fun a b => a.1 < b.1
  closed : ∀ victim ∈ taken, victim ∈ call.found ∧ victim.2.authenticated ∉ call.wereOpen
  others : ∀ entry, entry ∈ left ↔ entry ∈ call.found ∧ entry ∉ taken
  length : left.length + taken.length = call.found.length
  needed : taken.length ≤ call.found.length + 1 - call.cap
  older : ∀ entry ∈ left, ∀ victim ∈ taken, entry.1 < victim.1 → entry.2.authenticated ∈ opened
  stayOpen : call.wereOpen ⊆ opened

variable {taken left : List (Entry Addr)} {opened : List ℕ}

/-- A call that has taken nobody has swept nothing. -/
theorem sweep_nil (cap : ℕ) (slots : OrderedMap ℕ (Slot Addr)) (opened : List ℕ) :
    Sweep ⟨cap, [], slots.entries, opened⟩ [] slots.entries opened where
  sorted := slots.sorted
  increasing := .nil
  closed _ h := by cases h
  others entry := by simp
  length := Nat.add_zero _
  needed := Nat.zero_le _
  older _ _ _ h := by cases h
  stayOpen := List.Subset.refl _

/-- A sweep stays one when more gates have opened. -/
theorem Sweep.mono (h : Sweep call taken left opened) {opened' : List ℕ}
    (hopened : opened ⊆ opened') : Sweep call taken left opened' :=
  { h with
    older := fun entry hentry victim hvictim hlt =>
      hopened (h.older entry hentry victim hvictim hlt)
    stayOpen := List.Subset.trans h.stayOpen hopened }

/-- A connection that is left and closed is younger than the victims. -/
theorem Sweep.younger (h : Sweep call taken left opened) {entry : Entry Addr}
    (hentry : entry ∈ left) (hclosed : entry.2.authenticated ∉ opened) :
    ∀ victim ∈ taken, victim.1 < entry.1 := by
  intro victim hvictim
  obtain ⟨hfound, hout⟩ := (h.others entry).mp hentry
  refine Nat.lt_of_le_of_ne (Nat.le_of_not_lt fun hlt => ?_) fun heq => ?_
  · exact hclosed (h.older entry hentry victim hvictim hlt)
  · rw [OrderedMap.eq_of_key_eq h.sorted (h.closed victim hvictim).1 hfound heq] at hvictim
    exact hout hvictim

/-- One more victim. -/
theorem Sweep.concat {slots : OrderedMap ℕ (Slot Addr)} {victim : Entry Addr}
    (h : Sweep call taken slots.entries opened) (hmem : victim ∈ slots.entries)
    (hclosed : victim.2.authenticated ∉ call.wereOpen) (hcap : call.cap ≤ slots.length)
    (hyounger : ∀ other ∈ taken, other.1 < victim.1)
    (hread : ∀ entry ∈ slots.entries, entry.1 < victim.1 → entry.2.authenticated ∈ opened) :
    Sweep call (taken ++ [victim]) (slots.remove victim.1).entries opened := by
  have hfound := ((h.others victim).mp hmem).1
  have hlength := OrderedMap.length_remove_of_mem hmem
  have htotal := h.length
  rw [OrderedMap.length] at hcap hlength
  rw [OrderedMap.length] at hlength
  refine ⟨h.sorted, ?_, fun other hother => ?_, fun entry => ?_, ?_, ?_, ?_, h.stayOpen⟩
  · refine List.pairwise_append.mpr ⟨h.increasing, List.pairwise_singleton _ _, ?_⟩
    intro other hother last hlast
    exact List.mem_singleton.mp hlast ▸ hyounger other hother
  · rcases List.mem_append.mp hother with hother | hother
    · exact h.closed other hother
    · exact List.mem_singleton.mp hother ▸ ⟨hfound, hclosed⟩
  · rw [OrderedMap.mem_remove, h.others, List.mem_append, List.mem_singleton, not_or, and_assoc]
    refine and_congr_right fun hentry => and_congr_right fun _ => not_congr ⟨fun heq => ?_, ?_⟩
    · exact OrderedMap.eq_of_key_eq h.sorted hentry hfound heq
    · exact congrArg Prod.fst
  · rw [List.length_append, List.length_singleton]
    omega
  · rw [List.length_append, List.length_singleton]
    omega
  · intro entry hentry other hother hlt
    obtain ⟨hentry, -⟩ := OrderedMap.mem_remove.mp hentry
    rcases List.mem_append.mp hother with hother | hother
    · exact h.older entry hentry other hother hlt
    · exact hread entry hentry (List.mem_singleton.mp hother ▸ hlt)

/-- The connections whose gates were closed when a call took the lock. -/
def strangers (call : Call Addr) : List (Entry Addr) :=
  call.found.filter (·.2.authenticated ∉ call.wereOpen)

/-- **While no gate opens a call takes the oldest strangers**, as many as bring the roster below
the cap or all there are. -/
theorem Sweep.eq_take (h : Sweep call taken left opened)
    (hstops : left.length < call.cap ∨ ∀ entry ∈ left, entry.2.authenticated ∈ opened)
    (hquiet : ∀ entry ∈ call.found, entry.2.authenticated ∈ opened →
      entry.2.authenticated ∈ call.wereOpen) :
    taken = (strangers call).take (call.found.length + 1 - call.cap) := by
  have hmem : ∀ entry, entry ∈ strangers call ↔
      entry ∈ call.found ∧ entry.2.authenticated ∉ call.wereOpen := by
    simp [strangers]
  -- a stranger that is not a victim is left, and closed
  have hleft : ∀ entry ∈ strangers call, entry ∉ taken →
      entry ∈ left ∧ entry.2.authenticated ∉ opened := by
    intro entry hentry hout
    obtain ⟨hfound, hclosed⟩ := (hmem entry).mp hentry
    exact ⟨(h.others entry).mpr ⟨hfound, hout⟩, fun hopen => hclosed (hquiet entry hfound hopen)⟩
  have hsubset : taken ⊆ strangers call := fun victim hvictim =>
    (hmem victim).mpr (h.closed victim hvictim)
  have hprefix : taken <+: strangers call := by
    refine OrderedMap.prefix_of_downward_closed h.increasing (h.sorted.filter _) hsubset ?_
    intro victim hvictim entry hentry hlt
    by_contra hout
    obtain ⟨hentry, hclosed⟩ := hleft entry hentry hout
    exact hclosed (h.older entry hentry victim hvictim hlt)
  have htaken := List.prefix_iff_eq_take.mp hprefix
  rcases hstops with hbelow | hopen
  · have hlength := h.length
    have hneeded := h.needed
    have hcount : taken.length = call.found.length + 1 - call.cap := by omega
    rw [← hcount]
    exact htaken
  · have hall : strangers call ⊆ taken := by
      intro entry hentry
      by_contra hout
      obtain ⟨hentry, hclosed⟩ := hleft entry hentry hout
      exact hclosed (hopen entry hentry)
    have hdistinct : (strangers call).Nodup := by
      refine List.Pairwise.imp (fun {a b} hlt heq => ?_) (h.sorted.filter _)
      exact hlt.ne (congrArg Prod.fst heq)
    have hcount := (List.subperm_of_subset hdistinct hall).length_le
    have hneeded := h.needed
    rw [List.take_of_length_le (by omega)]
    rw [List.take_of_length_le hcount] at htaken
    exact htaken

/-! ### What a call knows -/

/-- What a call knows about the roster at each of its steps. -/
def Knows (s : Roster Addr) (call : Call Addr) : Phase Addr → Prop
  | .loop => Sweep call call.victims s.slots.entries s.opened
  | .find rest =>
      Sweep call call.victims s.slots.entries s.opened ∧ call.cap ≤ s.slots.length ∧
        ∃ read, s.slots.entries = read ++ rest ∧ ∀ entry ∈ read, entry.2.authenticated ∈ s.opened
  | .remove sequence =>
      Sweep call call.victims s.slots.entries s.opened ∧ call.cap ≤ s.slots.length ∧
        (∃ slot, (sequence, slot) ∈ s.slots.entries ∧ slot.authenticated ∉ call.wereOpen) ∧
        (∀ victim ∈ call.victims, victim.1 < sequence) ∧
        ∀ entry ∈ s.slots.entries, entry.1 < sequence → entry.2.authenticated ∈ s.opened
  | .signal sequence slot =>
      Sweep call (call.victims ++ [(sequence, slot)]) s.slots.entries s.opened

/-- A call that has returned brought the roster below the cap, or left nobody who is closed. -/
structure Swept (call : Returned Addr) : Prop where
  sweep : Sweep call.toCall call.victims call.left call.areOpen
  stops : call.left.length < call.cap ∨ ∀ entry ∈ call.left, entry.2.authenticated ∈ call.areOpen

/-- What holds of a roster at every moment. -/
structure Inv (s : Roster Addr) : Prop where
  accounts : Accounts s
  knows : ∀ call phase, s.holder = some (call, phase) → Knows s call phase
  signalled : ∀ call phase, s.holder = some (call, phase) →
    ∀ victim ∈ call.victims, victim.1 ∈ s.signals
  swept : ∀ call ∈ s.returned, Swept call ∧ ∀ victim ∈ call.victims, victim.1 ∈ s.signals

/-- The invariant holds of a new roster. -/
theorem inv_new : Inv (new : Roster Addr) where
  accounts := accounts_new
  knows _ _ h := by cases h
  signalled _ _ h := by cases h
  swept _ h := by cases h

/-- What a call knows survives gates that open. -/
theorem Knows.mono {s' : Roster Addr} (h : Knows s call phase) (hslots : s'.slots = s.slots)
    (hopened : s.opened ⊆ s'.opened) : Knows s' call phase := by
  cases phase with
  | loop =>
      rw [Knows, hslots]
      exact Sweep.mono h hopened
  | find rest =>
      obtain ⟨hsweep, hcap, read, hsplit, hread⟩ := h
      rw [Knows, hslots]
      exact ⟨hsweep.mono hopened, hcap, read, hsplit, fun entry hentry =>
        hopened (hread entry hentry)⟩
  | remove sequence =>
      obtain ⟨hsweep, hcap, hmem, hyounger, hread⟩ := h
      rw [Knows, hslots]
      exact ⟨hsweep.mono hopened, hcap, hmem, hyounger, fun entry hentry hlt =>
        hopened (hread entry hentry hlt)⟩
  | signal sequence slot =>
      rw [Knows, hslots]
      exact Sweep.mono h hopened

/-- A call that ends keeps the invariant. -/
theorem Inv.finish (h : Inv s) (haccounts : Accounts (s.finish call))
    (hsweep : Sweep call call.victims s.slots.entries s.opened)
    (hsignalled : ∀ victim ∈ call.victims, victim.1 ∈ s.signals)
    (hstops : s.slots.length < call.cap ∨
      ∀ entry ∈ s.slots.entries, entry.2.authenticated ∈ s.opened) : Inv (s.finish call) := by
  refine ⟨haccounts, nofun, nofun, fun other hother => ?_⟩
  rcases List.mem_append.mp hother with hother | hother
  · exact h.swept other hother
  · obtain rfl := List.mem_singleton.mp hother
    exact ⟨⟨hsweep, hstops⟩, hsignalled⟩

/-- A step of a call that changes nothing but how far it has come. -/
theorem Inv.goto (h : Inv s) (hholder : s.holder = some (call, phase)) {phase' : Phase Addr}
    (haccounts : Accounts { s with holder := some (call, phase') }) (hknows : Knows s call phase') :
    Inv { s with holder := some (call, phase') } := by
  refine ⟨haccounts, fun _ _ heq => ?_, fun _ _ heq => ?_, h.swept⟩
  · cases heq
    exact hknows.mono rfl (List.Subset.refl _)
  · cases heq
    exact h.signalled _ _ hholder

variable {entry : Entry Addr} {rest : List (Entry Addr)}

/-- A gate that is read open is passed over. -/
theorem Knows.read_open (h : Knows s call (.find (entry :: rest)))
    (hopen : entry.2.authenticated ∈ s.opened) : Knows s call (.find rest) := by
  obtain ⟨hsweep, hcap, read, hsplit, hread⟩ := h
  refine ⟨hsweep, hcap, read ++ [entry], by simp [hsplit], fun other hother => ?_⟩
  rcases List.mem_append.mp hother with hother | hother
  · exact hread other hother
  · exact List.mem_singleton.mp hother ▸ hopen

/-- **The first gate that is read closed is the oldest that is closed.** -/
theorem Knows.read_closed (h : Knows s call (.find (entry :: rest)))
    (hclosed : entry.2.authenticated ∉ s.opened) : Knows s call (.remove entry.1) := by
  obtain ⟨hsweep, hcap, read, hsplit, hread⟩ := h
  have hmem : entry ∈ s.slots.entries := by simp [hsplit]
  have hsorted := s.slots.sorted
  rw [hsplit] at hsorted
  have hyounger := (List.pairwise_cons.mp (List.pairwise_append.mp hsorted).2.1).1
  refine ⟨hsweep, hcap, ⟨entry.2, hmem, fun hwas => hclosed (hsweep.stayOpen hwas)⟩,
    hsweep.younger hmem hclosed, fun other hother hlt => ?_⟩
  -- the keys increase, so an older one has been read
  rw [hsplit] at hother
  rcases List.mem_append.mp hother with hother | hother
  · exact hread other hother
  · rcases List.mem_cons.mp hother with rfl | hother
    · exact absurd hlt (Nat.lt_irrefl _)
    · exact absurd hlt (hyounger other hother).asymm

/-- **Each step of a call leaves it knowing what the next needs.** -/
theorem Inv.evictUntilBelow (h : Inv s) (hholder : s.holder = some (call, phase)) :
    Inv (s.evictUntilBelow call phase) := by
  have haccounts := h.accounts.evictUntilBelow hholder
  have hknows := h.knows _ _ hholder
  have hsignalled := h.signalled _ _ hholder
  cases phase with
  | loop =>
      rw [Roster.evictUntilBelow] at haccounts ⊢
      split_ifs at haccounts ⊢ with hcap
      · exact h.goto hholder haccounts ⟨hknows, hcap, [], rfl, by simp⟩
      · exact h.finish haccounts hknows hsignalled (.inl (Nat.not_le.mp hcap))
  | find rest =>
      cases rest with
      | nil =>
          obtain ⟨hsweep, hcap, read, hsplit, hread⟩ := hknows
          rw [List.append_nil] at hsplit
          exact h.finish haccounts hsweep hsignalled (.inr (hsplit ▸ hread))
      | cons entry rest =>
          rw [Roster.evictUntilBelow] at haccounts ⊢
          split_ifs at haccounts ⊢ with hopen
          · exact h.goto hholder haccounts (hknows.read_open hopen)
          · exact h.goto hholder haccounts (hknows.read_closed hopen)
  | remove sequence =>
      obtain ⟨hsweep, hcap, ⟨slot, hmem, hclosed⟩, hyounger, hread⟩ := hknows
      have hslot := OrderedMap.get?_of_mem hmem
      simp only [Roster.evictUntilBelow, hslot] at haccounts ⊢
      refine ⟨haccounts, fun _ _ heq => ?_, fun _ _ heq => ?_, h.swept⟩
      · cases heq
        exact hsweep.concat hmem hclosed hcap hyounger hread
      · cases heq
        exact hsignalled
  | signal sequence slot =>
      refine ⟨haccounts, fun _ _ heq => ?_, fun _ _ heq => ?_, fun other hother => ?_⟩
      · cases heq
        exact ⟨hknows.sorted, hknows.increasing, hknows.closed, hknows.others, hknows.length,
          hknows.needed, hknows.older, hknows.stayOpen⟩
      · cases heq
        intro victim hvictim
        rcases List.mem_append.mp hvictim with hvictim | hvictim
        · exact List.mem_append_left _ (hsignalled victim hvictim)
        · obtain rfl := List.mem_singleton.mp hvictim
          exact List.mem_append_right _ List.mem_cons_self
      · obtain ⟨hswept, hvictims⟩ := h.swept other hother
        exact ⟨hswept, fun victim hvictim => List.mem_append_left _ (hvictims victim hvictim)⟩

/-- **Every step keeps it.** -/
theorem Inv.step (h : Inv s) (event : Event Addr) : Inv (s.step event) := by
  have haccounts := h.accounts.step event
  cases event with
  | draw remote authenticated =>
      exact ⟨haccounts, fun call phase hholder => (h.knows call phase hholder).mono rfl
        (List.Subset.refl _), h.signalled, h.swept⟩
  | enter sequence =>
      rw [Roster.step] at haccounts ⊢
      split
      · rename_i entry hholder hfind
        refine ⟨?_, fun _ _ heq => ?_, fun _ _ heq => ?_, h.swept⟩
        · simpa only [hholder, hfind] using haccounts
        · cases hholder.symm.trans heq
        · cases hholder.symm.trans heq
      · exact h
  | mark gate =>
      exact ⟨haccounts, fun call phase hholder => (h.knows call phase hholder).mono rfl
        (List.subset_cons_self _ _), h.signalled, h.swept⟩
  | evict cap =>
      rw [Roster.step] at haccounts ⊢
      split
      · rename_i hholder
        simp only [hholder] at haccounts
        refine ⟨haccounts, fun _ _ heq => ?_, fun _ _ heq => ?_, h.swept⟩
        · cases heq
          exact sweep_nil cap s.slots s.opened
        · cases heq
          exact fun _ hvictim => by cases hvictim
      · exact h
  | advance =>
      rw [Roster.step]
      split
      · exact h
      · rename_i call phase hholder
        exact h.evictUntilBelow hholder
  | drop sequence =>
      rw [Roster.step] at haccounts ⊢
      split_ifs at haccounts ⊢ with hdrop
      · refine ⟨haccounts, fun _ _ heq => ?_, fun _ _ heq => ?_, h.swept⟩
        · cases hdrop.1.symm.trans heq
        · cases hdrop.1.symm.trans heq
      · exact h

/-! ### Runs -/

/-- A run. -/
def run (s : Roster Addr) (events : List (Event Addr)) : Roster Addr :=
  History.run step s events

/-- A run ends with its last event. -/
@[simp] theorem run_concat (s : Roster Addr) (events : List (Event Addr)) (event : Event Addr) :
    s.run (events ++ [event]) = (s.run events).step event :=
  History.run_concat step s events event

/-- **Run lemma**: the invariant holds along every interleaving. -/
theorem inv_run (events : List (Event Addr)) : Inv ((new : Roster Addr).run events) :=
  History.run_invariant (fun _ event hinv => hinv.step event) inv_new events

variable {event : Event Addr} {sequence : ℕ}

/-- A call changes the roster where it removes a slot. -/
theorem slots_evictUntilBelow (s : Roster Addr) (call : Call Addr) (phase : Phase Addr) :
    (s.evictUntilBelow call phase).slots = s.slots ∨
      ∃ sequence, phase = .remove sequence ∧
        (s.evictUntilBelow call phase).slots = s.slots.remove sequence := by
  cases phase with
  | loop =>
      rw [evictUntilBelow]
      split_ifs
      · exact .inl rfl
      · exact .inl rfl
  | find rest =>
      cases rest with
      | nil => exact .inl rfl
      | cons entry rest =>
          rw [evictUntilBelow]
          split_ifs
          · exact .inl rfl
          · exact .inl rfl
  | remove sequence =>
      rw [evictUntilBelow]
      split
      · exact .inl rfl
      · exact .inr ⟨sequence, rfl, rfl⟩
  | signal sequence slot => exact .inl rfl

/-- **What a step does to the roster.** -/
theorem slots_step (s : Roster Addr) (event : Event Addr) :
    (s.step event).slots = s.slots ∨
      (∃ entry ∈ s.entering, (s.step event).slots = s.slots.insert entry.1 entry.2) ∨
      (∃ sequence, event = .drop sequence ∧ (s.step event).slots = s.slots.remove sequence) ∨
      ∃ call sequence, event = .advance ∧ s.holder = some (call, .remove sequence) ∧
        (s.step event).slots = s.slots.remove sequence := by
  cases event with
  | draw remote authenticated | mark gate => exact .inl rfl
  | enter sequence =>
      rw [step]
      split
      · rename_i entry hholder hfind
        exact .inr (.inl ⟨entry, List.mem_of_find?_eq_some hfind, rfl⟩)
      · exact .inl rfl
  | evict cap =>
      rw [step]
      split
      · exact .inl rfl
      · exact .inl rfl
  | advance =>
      rw [step]
      split
      · exact .inl rfl
      · rename_i call phase hholder
        rcases slots_evictUntilBelow s call phase with hslots | ⟨sequence, rfl, hslots⟩
        · exact .inl hslots
        · exact .inr (.inr (.inr ⟨call, sequence, rfl, hholder, hslots⟩))
  | drop sequence =>
      rw [step]
      split_ifs
      · exact .inr (.inr (.inl ⟨sequence, rfl, rfl⟩))
      · exact .inl rfl

/-- A number that has yet to be entered is not on the roster. -/
theorem Accounts.key_ne (h : Accounts s) {other : Entry Addr} (hother : other ∈ s.entering)
    (hmem : entry ∈ s.slots.entries) : entry.1 ≠ other.1 := by
  have hdistinct := h.distinct
  rw [List.map_append] at hdistinct
  have hregistered := ((h.slots entry).mp hmem).1
  exact ((List.nodup_append.mp hdistinct).2.2 _ (List.mem_map_of_mem hother) _
    (List.mem_map_of_mem hregistered)).symm

/-- **A slot leaves the roster** where its own registration is dropped, or where a call removes
it. -/
theorem Inv.removed (h : Inv s) (hmem : entry ∈ s.slots.entries)
    (hgone : entry ∉ (s.step event).slots.entries) :
    event = .drop entry.1 ∨ event = .advance ∧ ∃ call, s.holder = some (call, .remove entry.1) := by
  -- whatever is removed is the entry that is gone
  have hkey : ∀ {sequence},
      (s.step event).slots = s.slots.remove sequence → sequence = entry.1 := by
    intro sequence hslots
    by_contra hne
    rw [hslots, OrderedMap.mem_remove] at hgone
    exact hgone ⟨hmem, Ne.symm hne⟩
  rcases slots_step s event with hslots | ⟨other, hother, hslots⟩ | ⟨sequence, rfl, hslots⟩ |
    ⟨call, sequence, rfl, hholder, hslots⟩
  · exact absurd (hslots ▸ hmem) hgone
  · rw [hslots, OrderedMap.mem_insert] at hgone
    exact absurd (.inr ⟨hmem, h.accounts.key_ne hother hmem⟩) hgone
  · exact .inl (hkey hslots ▸ rfl)
  · exact .inr ⟨rfl, call, hkey hslots ▸ hholder⟩

/-- What happens beside a call leaves it where it is, and the roster too. -/
theorem step_beside (hevent : event ≠ .advance) (hholder : s.holder = some (call, phase)) :
    (s.step event).holder = some (call, phase) ∧ (s.step event).slots = s.slots := by
  cases event with
  | draw remote authenticated => exact ⟨hholder, rfl⟩
  | enter sequence | evict cap =>
      simp only [step, hholder]
      exact ⟨trivial, trivial⟩
  | mark gate => exact ⟨hholder, rfl⟩
  | advance => exact absurd rfl hevent
  | drop sequence =>
      rw [step, if_neg fun hdrop => by simp [hholder] at hdrop]
      exact ⟨hholder, rfl⟩

/-- What happens beside the calls starts none in the middle. -/
theorem holder_of_step_beside (hevent : event ≠ .advance) (hphase : phase ≠ .loop)
    (hholder : (s.step event).holder = some (call, phase)) : s.holder = some (call, phase) := by
  cases hbefore : s.holder with
  | some busy =>
      rw [← (step_beside hevent hbefore).1]
      exact hholder
  | none =>
      cases event with
      | evict cap =>
          simp only [step, hbefore] at hholder
          cases hholder
          exact absurd rfl hphase
      | enter sequence =>
          rw [step] at hholder
          split at hholder
          · exact hbefore.symm.trans hholder
          · exact hbefore.symm.trans hholder
      | drop sequence =>
          rw [step] at hholder
          split_ifs at hholder
          · exact hbefore.symm.trans hholder
          · exact hbefore.symm.trans hholder
      | draw | mark => exact hbefore.symm.trans hholder
      | advance => exact absurd rfl hevent

/-- A call removes a connection because it has read its gate closed. -/
theorem evictUntilBelow_remove {call' : Call Addr}
    (h : (s.evictUntilBelow call phase).holder = some (call', .remove sequence)) :
    call' = call ∧ (s.evictUntilBelow call phase).slots = s.slots ∧
      ∃ entry rest, phase = .find (entry :: rest) ∧ entry.1 = sequence ∧
        entry.2.authenticated ∉ s.opened := by
  cases phase with
  | find rest =>
      cases rest with
      | nil => cases h
      | cons entry rest =>
          rw [evictUntilBelow] at h ⊢
          split_ifs at h ⊢ with hopen
          · cases h
          · cases h
            exact ⟨rfl, rfl, entry, rest, rfl, rfl, hopen⟩
  | loop =>
      rw [evictUntilBelow] at h
      split_ifs at h <;> cases h
  | remove sequence' =>
      rw [evictUntilBelow] at h
      split at h <;> cases h
  | signal sequence' slot => cases h

/-- The call that is about to remove a connection has read its gate closed, with the roster at the
cap, and nothing but what others do has happened since. -/
def ReadClosed (events : List (Event Addr)) (entry : Entry Addr) : Prop :=
  ∃ front beside call rest, events = front ++ .advance :: beside ∧ .advance ∉ beside ∧
    (new.run events).holder = some (call, .remove entry.1) ∧
    (new.run front).holder = some (call, .find (entry :: rest)) ∧
    call.cap ≤ (new.run front).slots.length ∧ entry.2.authenticated ∉ (new.run front).opened

/-- **The gate of a victim was closed when it was read.** -/
theorem readClosed_of_remove {events : List (Event Addr)}
    (hholder : (new.run events).holder = some (call, .remove sequence)) :
    ∃ front beside, events = front ++ .advance :: beside ∧ .advance ∉ beside ∧
      ∃ entry rest, entry.1 = sequence ∧
        (new.run front).holder = some (call, .find (entry :: rest)) ∧
        (new.run front).slots = (new.run events).slots ∧
        entry.2.authenticated ∉ (new.run front).opened := by
  have hphase : (.remove sequence : Phase Addr) ≠ .loop := by simp
  refine History.exists_last (Q := fun s : Roster Addr => s.holder = some (call, .remove sequence))
    (R := fun before s => ∃ entry rest, entry.1 = sequence ∧
      before.holder = some (call, .find (entry :: rest)) ∧ before.slots = s.slots ∧
      entry.2.authenticated ∉ before.opened)
    ?_ (fun front hafter => ?_) (fun t event hne hafter => ?_) hholder
  · exact fun hnew => by cases hnew
  · change ((new.run front).step .advance).holder = _ at hafter
    cases hbefore : (new.run front).holder with
    | none =>
        rw [step_advance_of_free hbefore, hbefore] at hafter
        cases hafter
    | some busy =>
        obtain ⟨before, phase⟩ := busy
        rw [step_advance hbefore] at hafter
        obtain ⟨rfl, hslots, entry, rest, rfl, rfl, hclosed⟩ := evictUntilBelow_remove hafter
        refine ⟨entry, rest, rfl, hbefore, ?_, hclosed⟩
        exact (congrArg Roster.slots (step_advance hbefore)).trans hslots |>.symm
  · have hbefore := holder_of_step_beside hne hphase hafter
    refine ⟨hbefore, ?_⟩
    rintro r ⟨entry, rest, hkey, hfind, hslots, hclosed⟩
    exact ⟨entry, rest, hkey, hfind, hslots.trans (step_beside hne hbefore).2.symm, hclosed⟩

/-- Whoever is removed was read as closed. -/
theorem ReadClosed.of_removed {events : List (Event Addr)}
    (hmem : entry ∈ (new.run events).slots.entries)
    (hholder : (new.run events).holder = some (call, .remove entry.1)) :
    ReadClosed events entry := by
  obtain ⟨front, beside, hevents, hbeside, other, rest, hkey, hfind, hslots, hclosed⟩ :=
    readClosed_of_remove hholder
  obtain ⟨-, hcap, read, hsplit, -⟩ := (inv_run front).knows _ _ hfind
  have hother : other ∈ (new.run front).slots.entries := by simp [hsplit]
  rw [← hslots] at hmem
  obtain rfl := OrderedMap.eq_of_key_eq (new.run front).slots.sorted hother hmem hkey
  exact ⟨front, beside, call, rest, hevents, hbeside, hholder, hfind, hcap, hclosed⟩

/-! ### Every call returns -/

/-- The steps that a call may still take. -/
def work (s : Roster Addr) : ℕ :=
  let length := s.slots.length
  match s.holder with
  | none => 0
  | some (_, .loop) => (length + 1) * (length + 4)
  | some (_, .find rest) => length * (length + 4) + rest.length + 3
  | some (_, .remove _) => length * (length + 4) + 2
  | some (_, .signal _ _) => (length + 1) * (length + 4) + 1

/-- A step of a call ends it, or leaves it less to do. -/
theorem work_advance (hholder : s.holder = some (call, phase)) :
    (s.step .advance).holder = none ∨ (s.step .advance).work < s.work := by
  rw [step_advance hholder]
  cases phase with
  | loop =>
      rw [evictUntilBelow]
      split_ifs
      · right
        simp only [work, hholder, OrderedMap.length, Nat.succ_mul]
        omega
      · exact .inl rfl
  | find rest =>
      cases rest with
      | nil => exact .inl rfl
      | cons entry rest =>
          right
          rw [evictUntilBelow]
          split_ifs
          · simp [work, hholder]
          · simp only [work, hholder, List.length_cons]
            omega
  | remove sequence =>
      rw [evictUntilBelow]
      split
      · exact .inl rfl
      · rename_i slot hslot
        right
        have hlength := OrderedMap.length_remove_of_mem (OrderedMap.get?_eq_some_iff.mp hslot)
        have hmul (n : ℕ) : (n + 1) * (n + 4) ≤ (n + 1) * (n + 1 + 4) :=
          Nat.mul_le_mul_left _ (by omega)
        simp only [work, hholder, ← hlength]
        exact Nat.lt_succ_of_le (Nat.succ_le_succ (hmul _))
  | signal sequence slot =>
      right
      simp [evictUntilBelow, work, hholder]

/-- **A call that takes its steps returns**, whatever others do in between. -/
theorem exists_returned [DecidableEq Addr] (events : List (Event Addr))
    (h : s.work ≤ events.count .advance) :
    ∃ front, front <+: events ∧ (s.run front).holder = none := by
  induction events generalizing s with
  | nil =>
      refine ⟨[], List.nil_prefix, ?_⟩
      cases hholder : s.holder with
      | none => exact hholder
      | some busy =>
          obtain ⟨call, phase⟩ := busy
          rw [List.count_nil] at h
          cases phase <;> simp [work, hholder] at h
  | cons event events ih =>
      cases hholder : s.holder with
      | none => exact ⟨[], List.nil_prefix, hholder⟩
      | some busy =>
          obtain ⟨call, phase⟩ := busy
          by_cases hevent : event = .advance
          · subst hevent
            rw [List.count_cons_self] at h
            rcases work_advance hholder with hnone | hlt
            · exact ⟨[.advance], by simp, hnone⟩
            · obtain ⟨front, hfront, hnone⟩ := ih (s := s.step .advance) (by omega)
              exact ⟨.advance :: front, by simpa using hfront, hnone⟩
          · obtain ⟨hsame, hslots⟩ := step_beside hevent hholder
            rw [List.count_cons_of_ne hevent] at h
            have hwork : (s.step event).work = s.work := by
              simp only [work, hsame, hslots, hholder]
            obtain ⟨front, hfront, hnone⟩ := ih (s := s.step event) (hwork ▸ h)
            exact ⟨event :: front, by simpa using hfront, hnone⟩

/-! ### The roster -/

/-- A gate that opens between its read and the removal of its slot does not save the slot. -/
theorem open_slot_evicted :
    ¬∀ (events : List (Event ℕ)) (event : Event ℕ) (entry : Entry ℕ),
      entry ∈ (new.run events).slots.entries →
      entry.2.authenticated ∈ (new.run events).opened →
      entry ∉ ((new.run events).step event).slots.entries → event = .drop entry.1 := by
  intro h
  -- one connection, a cap of one, and its gate opens after the call has read it
  have hdrop := h [.draw 1 0, .enter 0, .evict 1, .advance, .advance, .mark 0] .advance
    (0, ⟨1, 0⟩) (by decide) (by decide) (by decide)
  cases hdrop

/-- **Connection slots are taken only from strangers, and none is leaked**, in every interleaving
of registrations, gates that open, calls of `evict_until_below` under any caps, and registrations
that are dropped.

* The roster holds the registrations that were neither dropped nor evicted.
* A slot leaves it only where its own registration is dropped, or where a call removes it that has
  read its gate closed just before, with the roster at the cap.
* A call takes its victims in the order they were accepted, from those whose gates were closed
  when it took the lock, and each of them while the roster was at the cap. It leaves all others,
  and stops with the roster below the cap or with nobody left who is closed. When the roster was
  below the cap it takes nobody, and when no gate opens meanwhile it takes the oldest strangers, as
  many as bring the roster below the cap or all there are.
* Each victim is signalled once, and nobody else is.
* A call that takes its steps returns, whatever others do in between. -/
theorem slots_taken_from_strangers [DecidableEq Addr] (events : List (Event Addr)) :
    let s := (new : Roster Addr).run events
    (∀ entry, entry ∈ s.slots.entries ↔
      entry ∈ s.registered ∧ entry.1 ∉ s.dropped ∧ entry.1 ∉ s.evicted) ∧
    (∀ event entry, entry ∈ s.slots.entries → entry ∉ (s.step event).slots.entries →
      event = .drop entry.1 ∨ event = .advance ∧ ReadClosed events entry) ∧
    (∀ call ∈ s.returned, Swept call ∧ (call.found.length < call.cap → call.victims = []) ∧
      ((∀ entry ∈ call.found, entry.2.authenticated ∈ call.areOpen →
        entry.2.authenticated ∈ call.wereOpen) →
        call.victims = (strangers call.toCall).take (call.found.length + 1 - call.cap)) ∧
      ∀ victim ∈ call.victims, s.signals.count victim.1 = 1) ∧
    (∀ sequence, s.signals.count sequence ≤ 1 ∧ (sequence ∈ s.signals → sequence ∈ s.evicted)) ∧
    ∀ more : List (Event Addr), s.work ≤ more.count .advance →
      ∃ front, front <+: more ∧ (s.run front).holder = none := by
  intro s
  have hinv : Inv s := inv_run events
  have hsignals : s.signals <+: s.evicted := ⟨s.owed, hinv.accounts.signals.symm⟩
  have honce : s.signals.Nodup := hinv.accounts.once.sublist hsignals.sublist
  refine ⟨hinv.accounts.slots, fun event entry hmem hgone => ?_, fun call hcall => ?_, ?_,
    fun more hmore => exists_returned more hmore⟩
  · rcases hinv.removed hmem hgone with rfl | ⟨rfl, call, hholder⟩
    · exact .inl rfl
    · exact .inr ⟨rfl, ReadClosed.of_removed hmem hholder⟩
  · obtain ⟨hswept, hsignalled⟩ := hinv.swept call hcall
    refine ⟨hswept, fun hbelow => ?_, hswept.sweep.eq_take hswept.stops, fun victim hvictim => ?_⟩
    · have hneeded := hswept.sweep.needed
      exact List.eq_nil_of_length_eq_zero (by omega)
    · exact List.count_eq_one_of_mem honce (hsignalled victim hvictim)
  · intro sequence
    exact ⟨List.nodup_iff_count_le_one.mp honce sequence, fun hmem => hsignals.subset hmem⟩

end Roster

end Quic

end Volto
