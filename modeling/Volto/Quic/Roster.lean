import Mathlib.Data.List.Nodup
import Mathlib.Data.Nat.Basic
import Volto.Lib.OrderedMap

/-!
# The Roster of Connections

The roster of `quic/roster.rs`, used by any number of tasks at once. A registration takes its
sequence number and then enters its slot under the lock, so that two of them may enter in the
other order. A registration that is dropped removes its slot under the lock. `evict_until_below`
holds the lock for all of its loop, and each length and gate that it reads, each removal and each
signal is a step of its own. A gate opens without the lock, between any two steps.

The state keeps a record of what has happened beside the roster: who was registered, dropped and
evicted, and for every call that has returned what it found and what it left.

## Main results

* `Accounts.step`: the roster and its record agree after every step.
-/

namespace Volto

namespace Quic

/-- One connection the endpoint is serving. Its eviction signal goes by its sequence number. -/
structure Slot (Addr : Type) where
  remote : Addr
  /-- The gate it was registered with, by its name. -/
  authenticated : ℕ
deriving DecidableEq, Repr

/-- A slot under its accept sequence. -/
abbrev Entry (Addr : Type) : Type := ℕ × Slot Addr

/-- A call of `evict_until_below`. -/
structure Call (Addr : Type) where
  cap : ℕ
  /-- The victims so far. The call returns their addresses. -/
  victims : List (Entry Addr)
  /-- The roster when it took the lock. -/
  found : List (Entry Addr)
  /-- The gates that were open then. -/
  wereOpen : List ℕ
deriving DecidableEq

/-- How far a call of `evict_until_below` has come. -/
inductive Phase (Addr : Type)
  /-- Compares the length with the cap. -/
  | loop
  /-- Reads the next gate, for `evict_oldest_from`. -/
  | find (rest : List (Entry Addr))
  /-- Removes the slot it has found. -/
  | remove (sequence : ℕ)
  /-- Signals the connection it has removed. -/
  | signal (sequence : ℕ) (slot : Slot Addr)
deriving DecidableEq

/-- A call that has returned. -/
structure Returned (Addr : Type) extends Call Addr where
  /-- The roster it left. -/
  left : List (Entry Addr)
  /-- The gates that were open then. -/
  areOpen : List ℕ
deriving DecidableEq

/-- The connections the endpoint is serving. -/
structure Roster (Addr : Type) where
  slots : OrderedMap ℕ (Slot Addr)
  /-- The sequence number the next registration takes; none is ever reused. -/
  next : ℕ
  /-- The gates that have opened. -/
  opened : List ℕ
  /-- Registrations between their two steps. -/
  entering : List (Entry Addr)
  /-- The call that holds the lock. -/
  holder : Option (Call Addr × Phase Addr)
  /-- The connections whose `evict` was notified, a place for each notification. -/
  signals : List ℕ
  registered : List (Entry Addr)
  dropped : List ℕ
  evicted : List ℕ
  returned : List (Returned Addr)
deriving DecidableEq

namespace Roster

variable {Addr : Type}

/-- A roster without connections. -/
def new : Roster Addr :=
  ⟨.empty, 0, [], [], none, [], [], [], [], []⟩

/-- The call returns, and with it the lock is free. -/
def finish (s : Roster Addr) (call : Call Addr) : Roster Addr :=
  { s with
    holder := none
    returned := s.returned ++ [{ call with left := s.slots.entries, areOpen := s.opened }] }

/-- The next step of a call of `evict_until_below`. -/
def evictUntilBelow (s : Roster Addr) (call : Call Addr) : Phase Addr → Roster Addr
  | .loop =>
      if call.cap ≤ s.slots.length then { s with holder := some (call, .find s.slots.entries) }
      else s.finish call
  | .find [] => s.finish call
  | .find (entry :: rest) =>
      if entry.2.authenticated ∈ s.opened then { s with holder := some (call, .find rest) }
      else { s with holder := some (call, .remove entry.1) }
  | .remove sequence =>
      match s.slots.get? sequence with
      | none => s.finish call
      | some slot =>
          { s with
            slots := s.slots.remove sequence
            evicted := s.evicted ++ [sequence]
            holder := some (call, .signal sequence slot) }
  | .signal sequence slot =>
      { s with
        signals := s.signals ++ [sequence]
        holder := some ({ call with victims := call.victims ++ [(sequence, slot)] }, .loop) }

/-- What can happen to a roster. -/
inductive Event (Addr : Type)
  /-- `register` takes a sequence number. -/
  | draw (remote : Addr) (authenticated : ℕ)
  /-- `register` enters the slot it has taken a number for. -/
  | enter (sequence : ℕ)
  /-- A gate opens. -/
  | mark (gate : ℕ)
  /-- `evict_until_below` takes the lock. -/
  | evict (cap : ℕ)
  /-- The call that holds the lock takes its next step. -/
  | advance
  /-- A `Registration` is dropped. -/
  | drop (sequence : ℕ)
deriving DecidableEq

/-- One step. What needs the lock waits while a call holds it. -/
def step (s : Roster Addr) : Event Addr → Roster Addr
  | .draw remote authenticated =>
      { s with next := s.next + 1, entering := s.entering ++ [(s.next, ⟨remote, authenticated⟩)] }
  | .enter sequence =>
      match s.holder, s.entering.find? (·.1 = sequence) with
      | none, some entry =>
          { s with
            slots := s.slots.insert entry.1 entry.2
            entering := s.entering.filter (·.1 ≠ sequence)
            registered := s.registered ++ [entry] }
      | _, _ => s
  | .mark gate => { s with opened := gate :: s.opened }
  | .evict cap =>
      match s.holder with
      | none => { s with holder := some (⟨cap, [], s.slots.entries, s.opened⟩, .loop) }
      | some _ => s
  | .advance =>
      match s.holder with
      | none => s
      | some (call, phase) => s.evictUntilBelow call phase
  -- a registration is there once it was entered, and is dropped once
  | .drop sequence =>
      if s.holder = none ∧ sequence ∈ s.registered.map Prod.fst ∧ sequence ∉ s.dropped then
        { s with slots := s.slots.remove sequence, dropped := s.dropped ++ [sequence] }
      else s

/-! ### The record -/

/-- A connection that is out of the roster and has yet to be told. -/
def owed (s : Roster Addr) : List ℕ :=
  match s.holder with
  | some (_, .signal sequence _) => [sequence]
  | _ => []

/-- **The roster agrees with the record of what has happened.** -/
structure Accounts (s : Roster Addr) : Prop where
  fresh : ∀ entry ∈ s.entering ++ s.registered, entry.1 < s.next
  distinct : ((s.entering ++ s.registered).map Prod.fst).Nodup
  dropped : ∀ sequence ∈ s.dropped, sequence ∈ s.registered.map Prod.fst
  evicted : ∀ sequence ∈ s.evicted, sequence ∈ s.registered.map Prod.fst
  once : s.evicted.Nodup
  slots : ∀ entry, entry ∈ s.slots.entries ↔
    entry ∈ s.registered ∧ entry.1 ∉ s.dropped ∧ entry.1 ∉ s.evicted
  signals : s.evicted = s.signals ++ s.owed

/-- A new roster accounts for its connections. -/
theorem accounts_new : Accounts (new : Roster Addr) where
  fresh _ h := by cases h
  distinct := List.nodup_nil
  dropped _ h := by cases h
  evicted _ h := by cases h
  once := List.nodup_nil
  slots entry := by simp [new, OrderedMap.empty]
  signals := rfl

variable {s : Roster Addr} {call : Call Addr} {phase : Phase Addr}

/-- The call that holds the lock takes its next step. -/
theorem step_advance (h : s.holder = some (call, phase)) :
    s.step .advance = s.evictUntilBelow call phase := by
  simp only [step, h]

/-- Nobody holds the lock, and nothing moves. -/
theorem step_advance_of_free (h : s.holder = none) : s.step .advance = s := by
  simp only [step, h]

/-- The keys are those of the entries. -/
theorem mem_keys {entries : List (Entry Addr)} {sequence : ℕ} :
    sequence ∈ entries.map Prod.fst ↔ ∃ slot, (sequence, slot) ∈ entries := by
  simp

/-- A step of the call that leaves the roster and the signals as they are. -/
theorem Accounts.goto (h : Accounts s) (howed : s.owed = [])
    (hphase : ∀ sequence slot, phase ≠ .signal sequence slot) :
    Accounts { s with holder := some (call, phase) } where
  fresh := h.fresh
  distinct := h.distinct
  dropped := h.dropped
  evicted := h.evicted
  once := h.once
  slots := h.slots
  signals := by
    rw [h.signals, howed]
    cases phase with
    | signal sequence slot => exact absurd rfl (hphase sequence slot)
    | loop | find | remove => rfl

/-- A call that ends keeps the account. -/
theorem Accounts.finish (h : Accounts s) (howed : s.owed = []) : Accounts (s.finish call) where
  fresh := h.fresh
  distinct := h.distinct
  dropped := h.dropped
  evicted := h.evicted
  once := h.once
  slots := h.slots
  signals := by
    have hsignals := h.signals
    rw [howed] at hsignals
    exact hsignals

/-- The victim of a call is no victim yet. -/
theorem Accounts.take (h : Accounts s) {sequence : ℕ} {slot : Slot Addr}
    (hholder : s.holder = some (call, .remove sequence))
    (hmem : (sequence, slot) ∈ s.slots.entries) :
    Accounts { s with
      slots := s.slots.remove sequence
      evicted := s.evicted ++ [sequence]
      holder := some (call, .signal sequence slot) } := by
  obtain ⟨hregistered, -, hevicted⟩ := (h.slots _).mp hmem
  refine ⟨h.fresh, h.distinct, h.dropped, fun n hn => ?_, ?_, fun entry => ?_, ?_⟩
  · rcases List.mem_append.mp hn with hn | hn
    · exact h.evicted n hn
    · rw [List.mem_singleton.mp hn]
      exact mem_keys.mpr ⟨slot, hregistered⟩
  · exact List.nodup_append.mpr ⟨h.once, List.nodup_singleton _, by
      rintro n hn m hm rfl
      exact hevicted (List.mem_singleton.mp hm ▸ hn)⟩
  · simp only [OrderedMap.mem_remove, h.slots, List.mem_append, List.mem_singleton, not_or,
      and_assoc]
  · have howed : s.owed = [] := by rw [owed, hholder]
    rw [h.signals, howed, List.append_nil]
    rfl

/-- A signal to a connection keeps the account. -/
theorem Accounts.signal (h : Accounts s) {sequence : ℕ} {slot : Slot Addr}
    (hholder : s.holder = some (call, .signal sequence slot)) {call' : Call Addr} :
    Accounts { s with signals := s.signals ++ [sequence], holder := some (call', .loop) } where
  fresh := h.fresh
  distinct := h.distinct
  dropped := h.dropped
  evicted := h.evicted
  once := h.once
  slots := h.slots
  signals := by
    have howed : s.owed = [sequence] := by rw [owed, hholder]
    rw [h.signals, howed]
    exact (List.append_nil _).symm

/-- A step of the eviction keeps the account. -/
theorem Accounts.evictUntilBelow (h : Accounts s) (hholder : s.holder = some (call, phase)) :
    Accounts (s.evictUntilBelow call phase) := by
  cases phase with
  | loop =>
      have howed : s.owed = [] := by rw [owed, hholder]
      rw [Roster.evictUntilBelow]
      split_ifs
      · exact h.goto howed nofun
      · exact h.finish howed
  | find rest =>
      have howed : s.owed = [] := by rw [owed, hholder]
      cases rest with
      | nil => exact h.finish howed
      | cons entry rest =>
          rw [Roster.evictUntilBelow]
          split_ifs
          · exact h.goto howed nofun
          · exact h.goto howed nofun
  | remove sequence =>
      rw [Roster.evictUntilBelow]
      split
      · exact h.finish (by rw [owed, hholder])
      · rename_i slot hslot
        exact h.take hholder (OrderedMap.get?_eq_some_iff.mp hslot)
  | signal sequence slot => exact h.signal hholder

/-- Drawing a sequence number keeps the account. -/
theorem Accounts.draw (h : Accounts s) (remote : Addr) (authenticated : ℕ) :
    Accounts (s.step (.draw remote authenticated)) := by
  refine ⟨fun entry hentry => ?_, ?_, h.dropped, h.evicted, h.once, h.slots, h.signals⟩
  · simp only [step, List.append_assoc, List.mem_append, List.mem_singleton] at hentry ⊢
    rcases hentry with hentry | rfl | hentry
    · exact (h.fresh entry (List.mem_append_left _ hentry)).trans (Nat.lt_succ_self _)
    · exact Nat.lt_succ_self _
    · exact (h.fresh entry (List.mem_append_right _ hentry)).trans (Nat.lt_succ_self _)
  · have hperm : ((s.step (.draw remote authenticated)).entering ++ s.registered).Perm
        ((s.next, ⟨remote, authenticated⟩) :: (s.entering ++ s.registered)) := by
      simp only [step, List.append_assoc]
      exact List.perm_middle
    refine (hperm.map Prod.fst).nodup_iff.mpr (List.nodup_cons.mpr ⟨fun hmem => ?_, h.distinct⟩)
    obtain ⟨slot, hslot⟩ := mem_keys.mp hmem
    exact Nat.lt_irrefl _ (h.fresh _ hslot)

/-- The registrations after one was entered are those of before. -/
theorem perm_enter (hdistinct : (s.entering.map Prod.fst).Nodup) {entry : Entry Addr}
    (hentry : entry ∈ s.entering) :
    (s.entering.filter (·.1 ≠ entry.1) ++ (s.registered ++ [entry])).Perm
      (s.entering ++ s.registered) := by
  obtain ⟨front, back, hsplit⟩ := List.append_of_mem hentry
  rw [hsplit, List.map_append, List.map_cons] at hdistinct
  obtain ⟨-, hback, hfront⟩ := List.nodup_append.mp hdistinct
  have hkeep : ∀ other ∈ front ++ back, decide (other.1 ≠ entry.1) = true := by
    intro other hother
    rw [decide_eq_true_iff]
    rcases List.mem_append.mp hother with hother | hother
    · exact hfront _ (List.mem_map_of_mem hother) _ List.mem_cons_self
    · rintro heq
      exact (List.nodup_cons.mp hback).1 (heq ▸ List.mem_map_of_mem hother)
  have hfilter : s.entering.filter (·.1 ≠ entry.1) = front ++ back := by
    rw [hsplit, List.filter_append, List.filter_cons_of_neg (by simp), ← List.filter_append]
    exact List.filter_eq_self.mpr hkeep
  rw [hfilter, hsplit, ← List.append_assoc, List.append_assoc front (entry :: back)]
  refine List.perm_append_comm.trans ?_
  rw [List.singleton_append, List.append_assoc]
  exact List.perm_middle.symm

/-- A connection that enters keeps the account. -/
theorem Accounts.enter (h : Accounts s) {entry : Entry Addr} (hentry : entry ∈ s.entering) :
    Accounts { s with
      slots := s.slots.insert entry.1 entry.2
      entering := s.entering.filter (·.1 ≠ entry.1)
      registered := s.registered ++ [entry] } := by
  have hdistinct := h.distinct
  rw [List.map_append] at hdistinct
  obtain ⟨hentering, -, hdisjoint⟩ := List.nodup_append.mp hdistinct
  have hperm := perm_enter hentering hentry
  -- its number was never given to anybody else
  have hnew : entry.1 ∉ s.registered.map Prod.fst := fun hmem =>
    hdisjoint _ (List.mem_map_of_mem hentry) _ hmem rfl
  refine ⟨fun other hother => h.fresh other (hperm.mem_iff.mp hother),
    (hperm.map Prod.fst).nodup_iff.mpr h.distinct, fun n hn => ?_, fun n hn => ?_, h.once,
    fun other => ?_, h.signals⟩
  · rw [List.map_append]
    exact List.mem_append_left _ (h.dropped n hn)
  · rw [List.map_append]
    exact List.mem_append_left _ (h.evicted n hn)
  · simp only [OrderedMap.mem_insert, h.slots, List.mem_append, List.mem_singleton]
    constructor
    · rintro (rfl | ⟨⟨hmem, hout⟩, -⟩)
      · exact ⟨.inr rfl, fun hmem => hnew (h.dropped _ hmem), fun hmem => hnew (h.evicted _ hmem)⟩
      · exact ⟨.inl hmem, hout⟩
    · rintro ⟨hmem | rfl, hout⟩
      · exact .inr ⟨⟨hmem, hout⟩, fun heq => hnew (heq ▸ List.mem_map_of_mem hmem)⟩
      · exact .inl rfl

/-- **The roster agrees with its record after every step.** -/
theorem Accounts.step (h : Accounts s) (event : Event Addr) : Accounts (s.step event) := by
  cases event with
  | draw remote authenticated => exact h.draw remote authenticated
  | enter sequence =>
      rw [Roster.step]
      split
      · rename_i entry hholder hfind
        have hkey := List.find?_some hfind
        obtain rfl : entry.1 = sequence := of_decide_eq_true hkey
        exact h.enter (List.mem_of_find?_eq_some hfind)
      · exact h
  | mark gate => exact ⟨h.fresh, h.distinct, h.dropped, h.evicted, h.once, h.slots, h.signals⟩
  | evict cap =>
      rw [Roster.step]
      split
      · rename_i hholder
        exact h.goto (by rw [owed, hholder]) nofun
      · exact h
  | advance =>
      rw [Roster.step]
      split
      · exact h
      · rename_i call phase hholder
        exact h.evictUntilBelow hholder
  | drop sequence =>
      rw [Roster.step]
      split_ifs with hdrop
      · refine ⟨h.fresh, h.distinct, fun n hn => ?_, h.evicted, h.once, fun entry => ?_, h.signals⟩
        · rcases List.mem_append.mp hn with hn | hn
          · exact h.dropped n hn
          · exact List.mem_singleton.mp hn ▸ hdrop.2.1
        · simp only [OrderedMap.mem_remove, h.slots, List.mem_append, List.mem_singleton, not_or]
          constructor
          · rintro ⟨⟨hmem, hdropped, hevicted⟩, hne⟩
            exact ⟨hmem, ⟨hdropped, hne⟩, hevicted⟩
          · rintro ⟨hmem, ⟨hdropped, hne⟩, hevicted⟩
            exact ⟨⟨hmem, hdropped, hevicted⟩, hne⟩
      · exact h

end Roster

end Quic

end Volto
