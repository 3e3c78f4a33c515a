import Mathlib.Data.List.Range
import Volto.Lib.FairSemaphore
import Volto.Lib.History
import Volto.Lib.Slots

/-!
# The Resolver Budget

`ConnectionResolver::acquire` of `net.rs`. A lookup races its connection's reserved slot against
a share of the server's allowance, and the second branch takes two permits one after the other:
one of the connection's burst, then one of the shared allowance, for which it queues with the
burst permit in hand. Whichever branch loses is dropped, a lookup that gives up drops both, and
a slot is dropped by the thread that ran the lookup.

Every operation on a semaphore is a step of its own, so that the lookups of all connections
interleave in every way. A step is taken by the lookup it names; `Phase` says where it stands.

## Main results

* `Sound.step`: every step keeps the accounts of every semaphore.
* `resolver_budget`: the bounds, the conservation of permits, and the reserved slot.
-/

namespace Volto

open FairSemaphore

/-- Name lookups the process may have in flight beyond the reserved ones. -/
def sharedLookups : ℕ := 128

/-- Lookups one connection may take from `sharedLookups` at once. -/
def burstLookups : ℕ := 32

namespace Resolver

/-- How far the `from_shared` branch of a lookup has come. -/
inductive FromShared
  | unpolled
  /-- Waiting for a burst permit. -/
  | burst
  /-- A burst permit in hand, and the shared allowance not asked yet. -/
  | burstHeld
  /-- A burst permit in hand, waiting for a shared one. -/
  | shared
deriving DecidableEq, Repr

/-- Where a lookup stands. -/
inductive Phase
  /-- Its `acquire` is not being polled: not polled yet, or pending. -/
  | parked (branch : FromShared)
  /-- Being polled, the reserved slot next. -/
  | asking (branch : FromShared)
  /-- Being polled, the reserved slot was pending and `from_shared` is next. -/
  | sharing (branch : FromShared)
  /-- `from_shared` has won, and the claim on the reserved slot is still to be dropped. -/
  | settling
  /-- Given up, with the claim on the reserved slot to be dropped. -/
  | leaving (branch : FromShared)
  /-- `from_shared` is being dropped, because the reserved slot has won or to give up. -/
  | closing (branch : FromShared) (won : Bool)
  /-- Holds `LookupSlot::Reserved`. -/
  | reserved
  /-- Holds `LookupSlot::Shared`. -/
  | shared
  /-- A shared slot whose burst permit has been dropped. -/
  | releasing
  | done
deriving DecidableEq, Repr

/-- Whether a lookup holds its connection's reserved slot. -/
def Phase.holdsReserved : Phase → Bool
  | .closing _ won => won
  | .reserved => true
  | _ => false

/-- Whether a lookup holds a slot of the shared allowance. -/
def Phase.holdsShared : Phase → Bool
  | .settling | .shared => true
  | _ => false

/-- Whether a lookup waits for a slot. -/
def Phase.waits : Phase → Bool
  | .parked _ | .asking _ | .sharing _ | .leaving _ => true
  | .settling | .closing _ _ | .reserved | .shared | .releasing | .done => false

/-- A lookup, and the connection it is made for. -/
structure Lookup where
  connection : ℕ
  phase : Phase
deriving DecidableEq, Repr

variable {tokio : FairSemaphore ℕ}

/-- The semaphores of one connection. -/
structure ConnectionResolver (tokio : FairSemaphore ℕ) where
  reserved : tokio.State
  burst : tokio.State

/-- The budget of a server, its connections, and every lookup made so far. -/
structure ResolverBudget (tokio : FairSemaphore ℕ) where
  shared : tokio.State
  connections : List (ConnectionResolver tokio)
  lookups : List Lookup

namespace ResolverBudget

/-- The budget for one server. -/
def new (tokio : FairSemaphore ℕ) : ResolverBudget tokio :=
  ⟨tokio.new sharedLookups, [], []⟩

/-- One connection's view of the budget. -/
def perConnection (s : ResolverBudget tokio) : ResolverBudget tokio :=
  { s with connections := s.connections ++ [⟨tokio.new 1, tokio.new burstLookups⟩] }

/-- Replaces a lookup and the semaphores it sees. -/
def put (s : ResolverBudget tokio) (id : ℕ) (lookup : Lookup) (phase : Phase)
    (resolver : ConnectionResolver tokio) (shared : tokio.State) : ResolverBudget tokio :=
  ⟨shared, s.connections.set lookup.connection resolver, s.lookups.set id { lookup with phase }⟩

/-- The next operation of a lookup on a semaphore. -/
def advance (s : ResolverBudget tokio) (id : ℕ) (lookup : Lookup)
    (resolver : ConnectionResolver tokio) : ResolverBudget tokio :=
  match lookup.phase with
  | .asking branch =>
      let polled := tokio.poll resolver.reserved id
      s.put id lookup (if polled.1 then .closing branch true else .sharing branch)
        { resolver with reserved := polled.2 } s.shared
  | .sharing .unpolled | .sharing .burst =>
      let polled := tokio.poll resolver.burst id
      s.put id lookup (if polled.1 then .sharing .burstHeld else .parked .burst)
        { resolver with burst := polled.2 } s.shared
  | .sharing .burstHeld | .sharing .shared =>
      let polled := tokio.poll s.shared id
      s.put id lookup (if polled.1 then .settling else .parked .shared) resolver polled.2
  | .settling =>
      s.put id lookup .shared { resolver with reserved := tokio.drop resolver.reserved id } s.shared
  | .leaving branch =>
      s.put id lookup (.closing branch false)
        { resolver with reserved := tokio.drop resolver.reserved id } s.shared
  -- the claim on the shared allowance goes before the burst permit
  | .closing .shared won =>
      s.put id lookup (.closing .burstHeld won) resolver (tokio.drop s.shared id)
  | .closing .burst won | .closing .burstHeld won =>
      s.put id lookup (.closing .unpolled won)
        { resolver with burst := tokio.drop resolver.burst id } s.shared
  | .closing .unpolled won =>
      s.put id lookup (if won then .reserved else .done) resolver s.shared
  | .releasing => s.put id lookup .done resolver (tokio.drop s.shared id)
  | .parked _ | .reserved | .shared | .done => s

/-- What happens from outside a poll: the runtime polls a lookup, the caller gives up, or the
thread that ran the lookup drops its slot. A lookup with a slot cannot be given up: the slot is
the thread's. -/
inductive Outside
  | poll
  | abandon
  | release
deriving DecidableEq, Repr

/-- What becomes of a lookup. -/
def outside (s : ResolverBudget tokio) (id : ℕ) (lookup : Lookup)
    (resolver : ConnectionResolver tokio) (event : Outside) : ResolverBudget tokio :=
  match event, lookup.phase with
  | .poll, .parked branch => s.put id lookup (.asking branch) resolver s.shared
  -- a future that was never polled has no claims
  | .abandon, .parked .unpolled => s.put id lookup .done resolver s.shared
  | .abandon, .parked branch => s.put id lookup (.leaving branch) resolver s.shared
  | .release, .reserved =>
      s.put id lookup .done { resolver with reserved := tokio.drop resolver.reserved id } s.shared
  | .release, .shared =>
      s.put id lookup .releasing { resolver with burst := tokio.drop resolver.burst id } s.shared
  | _, _ => s

/-- What can happen to a budget. -/
inductive Event
  | connect
  | lookup (connection : ℕ)
  | advance (id : ℕ)
  | outside (id : ℕ) (event : Outside)
deriving DecidableEq, Repr

/-- Acts on a lookup and the semaphores of its connection. -/
def withLookup (s : ResolverBudget tokio) (id : ℕ)
    (act : Lookup → ConnectionResolver tokio → ResolverBudget tokio) : ResolverBudget tokio :=
  match s.lookups[id]? with
  | none => s
  | some lookup =>
      match s.connections[lookup.connection]? with
      | none => s
      | some resolver => act lookup resolver

/-- One step. -/
def step (s : ResolverBudget tokio) : Event → ResolverBudget tokio
  | .connect => s.perConnection
  | .lookup connection =>
      if connection < s.connections.length then
        { s with lookups := s.lookups ++ [⟨connection, .parked .unpolled⟩] }
      else s
  | .advance id => s.withLookup id (s.advance id)
  | .outside id event => s.withLookup id (s.outside id · · event)

/-- A run. -/
def run (s : ResolverBudget tokio) (events : List Event) : ResolverBudget tokio :=
  events.foldl step s

/-- The lookups of some kind. -/
def which (s : ResolverBudget tokio) (p : Lookup → Bool) : List ℕ :=
  (List.range s.lookups.length).filter fun id => (s.lookups[id]?).any p

/-- The shared slots held, by all connections. -/
def sharedSlots (s : ResolverBudget tokio) : List ℕ :=
  s.which fun lookup => lookup.phase.holdsShared

/-- The shared slots held by one connection. -/
def sharedSlotsOf (s : ResolverBudget tokio) (connection : ℕ) : List ℕ :=
  s.which fun lookup => lookup.connection = connection ∧ lookup.phase.holdsShared

/-- The reserved slots held by one connection. -/
def reservedSlotsOf (s : ResolverBudget tokio) (connection : ℕ) : List ℕ :=
  s.which fun lookup => lookup.connection = connection ∧ lookup.phase.holdsReserved

end ResolverBudget

/-! ### Claims -/

/-- The claim of a branch on the burst permits of its connection. -/
def FromShared.onBurst : FromShared → Claim
  | .unpolled => .absent
  | .burst => .waiting
  | .burstHeld | .shared => .taken

/-- The claim of a branch on the shared allowance. -/
def FromShared.onShared : FromShared → Claim
  | .shared => .waiting
  | .unpolled | .burst | .burstHeld => .absent

/-- A lookup waits for the reserved slot from its first poll on. -/
def FromShared.onReserved : FromShared → Claim
  | .unpolled => .absent
  | .burst | .burstHeld | .shared => .waiting

namespace Phase

/-- The claim of a lookup on the reserved slot of its connection. -/
def onReserved : Phase → Claim
  | .parked branch | .asking branch => branch.onReserved
  | .sharing _ | .settling | .leaving _ => .waiting
  | .closing _ won => if won then .taken else .absent
  | .reserved => .taken
  | .shared | .releasing | .done => .absent

/-- The claim of a lookup on the burst permits of its connection. -/
def onBurst : Phase → Claim
  | .parked branch | .asking branch | .sharing branch | .leaving branch | .closing branch _ =>
      branch.onBurst
  | .settling | .shared => .taken
  | .reserved | .releasing | .done => .absent

/-- The claim of a lookup on the shared allowance. -/
def onShared : Phase → Claim
  | .parked branch | .asking branch | .sharing branch | .leaving branch | .closing branch _ =>
      branch.onShared
  | .settling | .shared | .releasing => .taken
  | .reserved | .done => .absent

end Phase

/-- The claims of the lookups on a semaphore. -/
def claimOf (lookups : List Lookup) (p : Lookup → Claim) (id : ℕ) : Claim :=
  (lookups[id]?).elim .absent p

/-- The claims of a lookup on a semaphore of a connection: others have none. -/
def ofConnection (connection : ℕ) (p : Phase → Claim) (lookup : Lookup) : Claim :=
  if lookup.connection = connection then p lookup.phase else .absent

/-- Replacing a lookup replaces its claim. -/
theorem claimOf_set {lookups : List Lookup} {id : ℕ} {lookup : Lookup}
    (h : lookups[id]? = some lookup) (p : Lookup → Claim) (lookup' : Lookup) :
    claimOf (lookups.set id lookup') p =
      Function.update (claimOf lookups p) id (p lookup') := by
  have hlt := (List.getElem?_eq_some_iff.mp h).1
  funext other
  rw [claimOf, List.getElem?_set, Function.update_apply]
  by_cases heq : id = other
  · simp [heq, heq ▸ hlt]
  · simp [heq, Ne.symm heq, claimOf]

/-- A new lookup has no claim. -/
theorem claimOf_concat (lookups : List Lookup) {p : Lookup → Claim} {lookup : Lookup}
    (h : p lookup = .absent) : claimOf (lookups ++ [lookup]) p = claimOf lookups p := by
  funext id
  rw [claimOf, claimOf]
  rcases Nat.lt_trichotomy id lookups.length with hlt | rfl | hgt
  · rw [List.getElem?_append_left hlt]
  · simp [h]
  · rw [List.getElem?_eq_none (by simp; omega), List.getElem?_eq_none (Nat.le_of_lt hgt)]

/-- The claim of a lookup. -/
theorem claimOf_some {lookups : List Lookup} {id : ℕ} {lookup : Lookup}
    (h : lookups[id]? = some lookup) (p : Lookup → Claim) : claimOf lookups p id = p lookup := by
  rw [claimOf, h, Option.elim_some]

/-- A lookup has its claims on the semaphores of its own connection. -/
theorem ofConnection_self (connection : ℕ) (p : Phase → Claim) (phase : Phase) :
    ofConnection connection p ⟨connection, phase⟩ = p phase :=
  if_pos rfl

/-! ### The accounts of a budget -/

namespace ResolverBudget

/-- **The accounts of every semaphore are in order.** -/
structure Sound (s : ResolverBudget tokio) : Prop where
  shared : Accounts tokio s.shared sharedLookups
    (claimOf s.lookups fun lookup => lookup.phase.onShared)
  reserved : ∀ (c : ℕ) (resolver : ConnectionResolver tokio), s.connections[c]? = some resolver →
    Accounts tokio resolver.reserved 1 (claimOf s.lookups (ofConnection c Phase.onReserved))
  burst : ∀ (c : ℕ) (resolver : ConnectionResolver tokio), s.connections[c]? = some resolver →
    Accounts tokio resolver.burst burstLookups (claimOf s.lookups (ofConnection c Phase.onBurst))
  placed : ∀ (id : ℕ) (lookup : Lookup), s.lookups[id]? = some lookup →
    lookup.connection < s.connections.length

/-- The accounts of a new budget. -/
theorem sound_new (tokio : FairSemaphore ℕ) : Sound (new tokio) where
  shared := Accounts.new tokio sharedLookups
  reserved _ _ h := by simp [new] at h
  burst _ _ h := by simp [new] at h
  placed _ _ h := by simp [new] at h

variable {s : ResolverBudget tokio} {id : ℕ} {lookup : Lookup}
  {resolver : ConnectionResolver tokio}

/-- **Only the claims of the lookup that acts change**, so its own connection's semaphores and
the shared one are all there is to check. -/
theorem Sound.put (h : Sound s) (hlookup : s.lookups[id]? = some lookup)
    (hresolver : s.connections[lookup.connection]? = some resolver) {phase : Phase}
    {resolver' : ConnectionResolver tokio} {shared' : tokio.State}
    (hreserved : Accounts tokio resolver'.reserved 1 (Function.update
      (claimOf s.lookups (ofConnection lookup.connection Phase.onReserved)) id phase.onReserved))
    (hburst : Accounts tokio resolver'.burst burstLookups (Function.update
      (claimOf s.lookups (ofConnection lookup.connection Phase.onBurst)) id phase.onBurst))
    (hshared : Accounts tokio shared' sharedLookups (Function.update
      (claimOf s.lookups fun lookup => lookup.phase.onShared) id phase.onShared)) :
    Sound (s.put id lookup phase resolver' shared') := by
  have hother : ∀ (c : ℕ) (p : Phase → Claim) (state : tokio.State) (capacity : ℕ),
      c ≠ lookup.connection →
      Accounts tokio state capacity (claimOf s.lookups (ofConnection c p)) →
      Accounts tokio state capacity
        (claimOf (s.put id lookup phase resolver' shared').lookups (ofConnection c p)) := by
    intro c p state capacity hc hold
    rw [ResolverBudget.put, claimOf_set hlookup]
    refine hold.keep ?_
    rw [claimOf_some hlookup]
    simp [ofConnection, Ne.symm hc]
  refine ⟨?_, ?_, ?_, ?_⟩
  · rw [ResolverBudget.put, claimOf_set hlookup]
    exact hshared
  · intro c r hr
    rcases (Slots.getElem?_set hresolver).mp hr with ⟨rfl, rfl⟩ | ⟨hne, hr⟩
    · rw [ResolverBudget.put, claimOf_set hlookup, ofConnection_self]
      exact hreserved
    · exact hother c _ _ _ hne (h.reserved c r hr)
  · intro c r hr
    rcases (Slots.getElem?_set hresolver).mp hr with ⟨rfl, rfl⟩ | ⟨hne, hr⟩
    · rw [ResolverBudget.put, claimOf_set hlookup, ofConnection_self]
      exact hburst
    · exact hother c _ _ _ hne (h.burst c r hr)
  · intro other l hl
    rw [ResolverBudget.put, List.length_set]
    rcases (Slots.getElem?_set hlookup).mp hl with ⟨-, rfl⟩ | ⟨-, hl⟩
    · exact h.placed id lookup hlookup
    · exact h.placed other l hl

/-! At each operation at most one semaphore changes; the other claims stay as they are. -/

/-- The claim of a lookup on a semaphore of its own connection. -/
theorem claimOf_own (hlookup : s.lookups[id]? = some lookup) (p : Phase → Claim) :
    claimOf s.lookups (ofConnection lookup.connection p) id = p lookup.phase :=
  (claimOf_some hlookup _).trans (ofConnection_self _ _ _)

/-- A step that changes the reserved semaphore only. -/
theorem Sound.put_reserved (h : Sound s) (hlookup : s.lookups[id]? = some lookup)
    (hresolver : s.connections[lookup.connection]? = some resolver) {phase : Phase}
    {reserved' : tokio.State}
    (hreserved : Accounts tokio reserved' 1 (Function.update
      (claimOf s.lookups (ofConnection lookup.connection Phase.onReserved)) id phase.onReserved))
    (hburst : lookup.phase.onBurst = phase.onBurst)
    (hshared : lookup.phase.onShared = phase.onShared) :
    Sound (s.put id lookup phase { resolver with reserved := reserved' } s.shared) :=
  h.put hlookup hresolver hreserved
    ((h.burst _ _ hresolver).keep ((claimOf_own hlookup _).trans hburst))
    (h.shared.keep ((claimOf_some hlookup _).trans hshared))

/-- A step that changes the burst semaphore only. -/
theorem Sound.put_burst (h : Sound s) (hlookup : s.lookups[id]? = some lookup)
    (hresolver : s.connections[lookup.connection]? = some resolver) {phase : Phase}
    {burst' : tokio.State} (hreserved : lookup.phase.onReserved = phase.onReserved)
    (hburst : Accounts tokio burst' burstLookups (Function.update
      (claimOf s.lookups (ofConnection lookup.connection Phase.onBurst)) id phase.onBurst))
    (hshared : lookup.phase.onShared = phase.onShared) :
    Sound (s.put id lookup phase { resolver with burst := burst' } s.shared) :=
  h.put hlookup hresolver
    ((h.reserved _ _ hresolver).keep ((claimOf_own hlookup _).trans hreserved)) hburst
    (h.shared.keep ((claimOf_some hlookup _).trans hshared))

/-- A step that changes the shared semaphore only. -/
theorem Sound.put_shared (h : Sound s) (hlookup : s.lookups[id]? = some lookup)
    (hresolver : s.connections[lookup.connection]? = some resolver) {phase : Phase}
    {shared' : tokio.State} (hreserved : lookup.phase.onReserved = phase.onReserved)
    (hburst : lookup.phase.onBurst = phase.onBurst)
    (hshared : Accounts tokio shared' sharedLookups (Function.update
      (claimOf s.lookups fun lookup => lookup.phase.onShared) id phase.onShared)) :
    Sound (s.put id lookup phase resolver shared') :=
  h.put hlookup hresolver
    ((h.reserved _ _ hresolver).keep ((claimOf_own hlookup _).trans hreserved))
    ((h.burst _ _ hresolver).keep ((claimOf_own hlookup _).trans hburst)) hshared

/-- Where no claim changes there is nothing to check. -/
theorem Sound.put_same (h : Sound s) (hlookup : s.lookups[id]? = some lookup)
    (hresolver : s.connections[lookup.connection]? = some resolver) {phase : Phase}
    (hreserved : lookup.phase.onReserved = phase.onReserved)
    (hburst : lookup.phase.onBurst = phase.onBurst)
    (hshared : lookup.phase.onShared = phase.onShared) :
    Sound (s.put id lookup phase resolver s.shared) :=
  h.put_shared hlookup hresolver hreserved hburst
    (h.shared.keep ((claimOf_some hlookup _).trans hshared))

/-- **The operations of a lookup keep the accounts.** In each phase one semaphore changes, and
with it the claim that the next phase has on it. -/
theorem Sound.advance (h : Sound s) (hlookup : s.lookups[id]? = some lookup)
    (hresolver : s.connections[lookup.connection]? = some resolver) :
    Sound (s.advance id lookup resolver) := by
  obtain ⟨connection, phase⟩ := lookup
  have hreserved := h.reserved _ _ hresolver
  have hburst := h.burst _ _ hresolver
  have hclaim (p : Phase → Claim) := claimOf_own hlookup p
  have hclaimShared := claimOf_some hlookup fun lookup => lookup.phase.onShared
  cases phase with
  | asking branch =>
      simp only [ResolverBudget.advance]
      cases hready : (tokio.poll resolver.reserved id).1 with
      | true => exact h.put_reserved hlookup hresolver (hreserved.poll_ready hready) rfl rfl
      | false => exact h.put_reserved hlookup hresolver (hreserved.poll_pending hready).2 rfl rfl
  | sharing branch =>
      cases branch with
      | unpolled | burst =>
          simp only [ResolverBudget.advance]
          cases hready : (tokio.poll resolver.burst id).1 with
          | true => exact h.put_burst hlookup hresolver rfl (hburst.poll_ready hready) rfl
          | false => exact h.put_burst hlookup hresolver rfl (hburst.poll_pending hready).2 rfl
      | burstHeld | shared =>
          simp only [ResolverBudget.advance]
          cases hready : (tokio.poll s.shared id).1 with
          | true => exact h.put_shared hlookup hresolver rfl rfl (h.shared.poll_ready hready)
          | false => exact h.put_shared hlookup hresolver rfl rfl (h.shared.poll_pending hready).2
  | settling | leaving branch =>
      exact h.put_reserved hlookup hresolver
        (hreserved.drop ((hclaim Phase.onReserved).trans_ne nofun)) rfl rfl
  | closing branch won =>
      cases branch with
      | shared =>
          exact h.put_shared hlookup hresolver rfl rfl (h.shared.drop (hclaimShared.trans_ne nofun))
      | burst | burstHeld =>
          exact h.put_burst hlookup hresolver rfl
            (hburst.drop ((hclaim Phase.onBurst).trans_ne nofun)) rfl
      | unpolled =>
          cases won with
          | true | false => exact h.put_same hlookup hresolver rfl rfl rfl
  | releasing =>
      exact h.put_shared hlookup hresolver rfl rfl (h.shared.drop (hclaimShared.trans_ne nofun))
  | parked branch | reserved | shared | done => exact h

/-- **So does what happens to it from outside.** -/
theorem Sound.outside (h : Sound s) (hlookup : s.lookups[id]? = some lookup)
    (hresolver : s.connections[lookup.connection]? = some resolver) (event : Outside) :
    Sound (s.outside id lookup resolver event) := by
  obtain ⟨connection, phase⟩ := lookup
  cases event with
  | poll =>
      cases phase with
      | parked branch => exact h.put_same hlookup hresolver rfl rfl rfl
      | _ => exact h
  | abandon =>
      cases phase with
      | parked branch =>
          cases branch with
          | unpolled | burst | burstHeld | shared =>
              exact h.put_same hlookup hresolver rfl rfl rfl
      | _ => exact h
  | release =>
      cases phase with
      | reserved =>
          exact h.put_reserved hlookup hresolver
            ((h.reserved _ _ hresolver).drop
              ((claimOf_own hlookup Phase.onReserved).trans_ne nofun)) rfl rfl
      | shared =>
          exact h.put_burst hlookup hresolver rfl
            ((h.burst _ _ hresolver).drop ((claimOf_own hlookup Phase.onBurst).trans_ne nofun)) rfl
      | _ => exact h

/-- An action on a lookup need only be looked at where the lookup exists. -/
theorem withLookup_induction {motive : ResolverBudget tokio → Prop}
    {act : Lookup → ConnectionResolver tokio → ResolverBudget tokio} (hself : motive s)
    (hact : ∀ lookup resolver, s.lookups[id]? = some lookup →
      s.connections[lookup.connection]? = some resolver → motive (act lookup resolver)) :
    motive (s.withLookup id act) := by
  rw [withLookup]
  split
  · exact hself
  · rename_i lookup hlookup
    split
    · exact hself
    · exact hact lookup _ hlookup ‹_›

/-- **Every step keeps the accounts of every semaphore.** -/
theorem Sound.step (h : Sound s) (event : Event) : Sound (s.step event) := by
  cases event with
  | connect =>
      -- nobody has a claim on a connection that was not there
      have hnone : ∀ p : Phase → Claim,
          claimOf s.lookups (ofConnection s.connections.length p) = fun _ => .absent := by
        intro p
        funext id
        rw [claimOf]
        cases hlookup : s.lookups[id]? with
        | none => rfl
        | some lookup =>
            have hlt := h.placed id lookup hlookup
            simp [ofConnection, Nat.ne_of_lt hlt]
      refine ⟨h.shared, ?_, ?_, ?_⟩
      · intro c resolver hresolver
        rcases Slots.getElem?_concat.mp hresolver with hold | ⟨rfl, rfl⟩
        · exact h.reserved c resolver hold
        · exact (hnone _).symm ▸ Accounts.new tokio 1
      · intro c resolver hresolver
        rcases Slots.getElem?_concat.mp hresolver with hold | ⟨rfl, rfl⟩
        · exact h.burst c resolver hold
        · exact (hnone _).symm ▸ Accounts.new tokio burstLookups
      · intro id lookup hlookup
        rw [ResolverBudget.step, perConnection, List.length_append]
        exact Nat.lt_add_right 1 (h.placed id lookup hlookup)
  | lookup connection =>
      rw [ResolverBudget.step]
      split_ifs with hlt
      · refine ⟨?_, fun c resolver hresolver => ?_, fun c resolver hresolver => ?_, ?_⟩
        · rw [claimOf_concat _ rfl]
          exact h.shared
        · rw [claimOf_concat _ (by simp [ofConnection, Phase.onReserved, FromShared.onReserved])]
          exact h.reserved c resolver hresolver
        · rw [claimOf_concat _ (by simp [ofConnection, Phase.onBurst, FromShared.onBurst])]
          exact h.burst c resolver hresolver
        · intro id lookup hlookup
          rcases Slots.getElem?_concat.mp hlookup with hold | ⟨-, rfl⟩
          · exact h.placed id lookup hold
          · exact hlt
      · exact h
  | advance id => exact withLookup_induction h fun _ _ => h.advance
  | outside id event => exact withLookup_induction h fun _ _ hl hr => h.outside hl hr event

/-- Every run keeps the accounts. -/
theorem Sound.run (h : Sound s) (events : List Event) : Sound (s.run events) :=
  History.run_invariant (fun _ event hsound => hsound.step event) h events

/-- The accounts are in order after every run of a new budget. -/
theorem sound_run (tokio : FairSemaphore ℕ) (events : List Event) :
    Sound ((new tokio).run events) :=
  (sound_new tokio).run events

/-! ### The bounds -/

/-- Whether a lookup is of some kind. -/
theorem mem_which {p : Lookup → Bool} :
    id ∈ s.which p ↔ ∃ lookup, s.lookups[id]? = some lookup ∧ p lookup = true := by
  rw [which, List.mem_filter, List.mem_range]
  constructor
  · rintro ⟨-, hany⟩
    exact (Option.any_eq_true _ _).mp hany
  · rintro ⟨lookup, hlookup, hp⟩
    exact ⟨(List.getElem?_eq_some_iff.mp hlookup).1,
      (Option.any_eq_true _ _).mpr ⟨lookup, hlookup, hp⟩⟩

/-- No lookup is listed twice. -/
theorem nodup_which (p : Lookup → Bool) : (s.which p).Nodup :=
  List.nodup_range.filter _

/-- Whoever holds the reserved slot has its permit. -/
theorem onReserved_of_holdsReserved {phase : Phase} (h : phase.holdsReserved = true) :
    phase.onReserved = .taken := by
  cases phase <;> simp_all [Phase.holdsReserved, Phase.onReserved]

/-- Whoever holds a shared slot has a permit of the burst and one of the allowance. -/
theorem taken_of_holdsShared {phase : Phase} (h : phase.holdsShared = true) :
    phase.onBurst = .taken ∧ phase.onShared = .taken := by
  cases phase <;> simp_all [Phase.holdsShared, Phase.onBurst, Phase.onShared]

/-- The shared slots are within the allowance. -/
theorem Sound.length_sharedSlots_le (h : Sound s) : s.sharedSlots.length ≤ sharedLookups := by
  refine h.shared.length_taken_le (nodup_which _) fun id hmem => ?_
  obtain ⟨lookup, hlookup, hholds⟩ := mem_which.mp hmem
  rw [claimOf_some hlookup]
  exact (taken_of_holdsShared hholds).2

/-- Those of one connection are within its burst. -/
theorem Sound.length_sharedSlotsOf_le (h : Sound s) {c : ℕ}
    (hresolver : s.connections[c]? = some resolver) :
    (s.sharedSlotsOf c).length ≤ burstLookups := by
  refine (h.burst c resolver hresolver).length_taken_le (nodup_which _) fun id hmem => ?_
  obtain ⟨lookup, hlookup, hholds⟩ := mem_which.mp hmem
  obtain ⟨rfl, hshared⟩ := of_decide_eq_true hholds
  rw [claimOf_own hlookup]
  exact (taken_of_holdsShared hshared).1

/-- A connection has one reserved slot. -/
theorem Sound.length_reservedSlotsOf_le (h : Sound s) {c : ℕ}
    (hresolver : s.connections[c]? = some resolver) : (s.reservedSlotsOf c).length ≤ 1 := by
  refine (h.reserved c resolver hresolver).length_taken_le (nodup_which _) fun id hmem => ?_
  obtain ⟨lookup, hlookup, hholds⟩ := mem_which.mp hmem
  obtain ⟨rfl, hreserved⟩ := of_decide_eq_true hholds
  rw [claimOf_own hlookup]
  exact onReserved_of_holdsReserved hreserved

/-! ### One lookup on its own -/

/-- A lookup of a connection in its phase, and the semaphores of that connection. -/
structure At (s : ResolverBudget tokio) (id c : ℕ) (phase : Phase)
    (resolver : ConnectionResolver tokio) : Prop where
  lookup : s.lookups[id]? = some ⟨c, phase⟩
  resolver : s.connections[c]? = some resolver

variable {c : ℕ} {phase : Phase}

/-- The next operation of a lookup that is known. -/
theorem At.advance_eq (h : At s id c phase resolver) :
    s.step (.advance id) = s.advance id ⟨c, phase⟩ resolver := by
  rw [ResolverBudget.step, withLookup, h.lookup]
  simp only [h.resolver]

/-- What becomes of a lookup that is known. -/
theorem At.outside_eq (h : At s id c phase resolver) (event : Outside) :
    s.step (.outside id event) = s.outside id ⟨c, phase⟩ resolver event := by
  rw [ResolverBudget.step, withLookup, h.lookup]
  simp only [h.resolver]

/-- The lookup after its phase and its semaphores were replaced. -/
theorem At.put (h : At s id c phase resolver) (phase' : Phase)
    (resolver' : ConnectionResolver tokio) (shared : tokio.State) :
    At (s.put id ⟨c, phase⟩ phase' resolver' shared) id c phase' resolver' where
  lookup := (Slots.getElem?_set h.lookup).mpr (.inl ⟨rfl, rfl⟩)
  resolver := (Slots.getElem?_set h.resolver).mpr (.inl ⟨rfl, rfl⟩)

/-- The last of two replacements stays. -/
@[simp] theorem put_put (s : ResolverBudget tokio) (id c : ℕ) (phase phase' phase'' : Phase)
    (r r' : ConnectionResolver tokio) (shared shared' : tokio.State) :
    (s.put id ⟨c, phase⟩ phase' r shared).put id ⟨c, phase'⟩ phase'' r' shared' =
      s.put id ⟨c, phase⟩ phase'' r' shared' := by
  simp [ResolverBudget.put]

/-- The shared semaphore that was put. -/
@[simp] theorem put_shared (s : ResolverBudget tokio) (id : ℕ) (lookup : Lookup) (phase : Phase)
    (r : ConnectionResolver tokio) (shared : tokio.State) :
    (s.put id lookup phase r shared).shared = shared :=
  rfl

/-- The first poll of a lookup, with nobody else in between. -/
def firstPoll (id : ℕ) : List Event :=
  [.outside id .poll, .advance id, .advance id, .advance id]

/-- A lookup giving up, with nobody else in between. -/
def giveUp (id : ℕ) : List Event :=
  [.outside id .abandon, .advance id, .advance id, .advance id, .advance id]

/-- What the first poll of a lookup leads to. -/
theorem At.firstPoll_eq (h : At s id c (.parked .unpolled) resolver) :
    s.run (firstPoll id) =
      if (tokio.poll resolver.reserved id).1 then
        s.put id ⟨c, .parked .unpolled⟩ .reserved
          { resolver with reserved := (tokio.poll resolver.reserved id).2 } s.shared
      else if (tokio.poll resolver.burst id).1 then
        s.put id ⟨c, .parked .unpolled⟩
          (if (tokio.poll s.shared id).1 then .settling else .parked .shared)
          ⟨(tokio.poll resolver.reserved id).2, (tokio.poll resolver.burst id).2⟩
          (tokio.poll s.shared id).2
      else
        s.put id ⟨c, .parked .unpolled⟩ (.parked .burst)
          ⟨(tokio.poll resolver.reserved id).2, (tokio.poll resolver.burst id).2⟩ s.shared := by
  simp only [run, firstPoll, List.foldl_cons, List.foldl_nil, h.outside_eq,
    ResolverBudget.outside, (h.put _ _ _).advance_eq, ResolverBudget.advance, put_put, put_shared]
  cases hreserved : (tokio.poll resolver.reserved id).1 with
  | true => simp only [(h.put _ _ _).advance_eq, ResolverBudget.advance, ↓reduceIte]
  | false =>
      cases hburst : (tokio.poll resolver.burst id).1 with
      | true =>
          simp only [Bool.false_eq_true, (h.put _ _ _).advance_eq, ResolverBudget.advance,
            put_put, put_shared, ↓reduceIte]
          rfl
      | false =>
          simp only [Bool.false_eq_true, (h.put _ _ _).advance_eq, ResolverBudget.advance,
            ↓reduceIte]

/-- Giving up drops the claims of a lookup one after the other. -/
theorem At.giveUp_burst (h : At s id c (.parked .burst) resolver) :
    s.run (giveUp id) = s.put id ⟨c, .parked .burst⟩ .done
      ⟨tokio.drop resolver.reserved id, tokio.drop resolver.burst id⟩ s.shared := by
  simp only [run, giveUp, List.foldl_cons, List.foldl_nil, h.outside_eq,
    ResolverBudget.outside, (h.put _ _ _).advance_eq, ResolverBudget.advance, put_put, put_shared,
    Bool.false_eq_true, ↓reduceIte]

/-- Giving up on a shared slot drops all three claims. -/
theorem At.giveUp_shared (h : At s id c (.parked .shared) resolver) :
    s.run (giveUp id) = s.put id ⟨c, .parked .shared⟩ .done
      ⟨tokio.drop resolver.reserved id, tokio.drop resolver.burst id⟩ (tokio.drop s.shared id) := by
  simp only [run, giveUp, List.foldl_cons, List.foldl_nil, h.outside_eq,
    ResolverBudget.outside, (h.put _ _ _).advance_eq, ResolverBudget.advance, put_put, put_shared,
    Bool.false_eq_true, ↓reduceIte]

/-- **A wait that is abandoned leaves the budget as if it had never been made.** -/
theorem Sound.giveUp (h : Sound s) (hat : At s id c (.parked .unpolled) resolver)
    {branch : FromShared}
    (hparked : (s.run (firstPoll id)).lookups[id]? = some ⟨c, .parked branch⟩) :
    ∃ (resolver' : ConnectionResolver tokio) (shared' : tokio.State),
      s.run (firstPoll id ++ giveUp id) =
        s.put id ⟨c, .parked .unpolled⟩ .done resolver' shared' ∧
      tokio.Same resolver.reserved resolver'.reserved ∧
      tokio.Same resolver.burst resolver'.burst ∧ tokio.Same s.shared shared' := by
  have hreserved :=
    (h.reserved _ _ hat.resolver).drop_poll (claimOf_own hat.lookup Phase.onReserved)
  have hburst := (h.burst _ _ hat.resolver).drop_poll (claimOf_own hat.lookup Phase.onBurst)
  have hshared := h.shared.drop_poll (claimOf_some hat.lookup _)
  have hrun : s.run (firstPoll id ++ ResolverBudget.giveUp id) =
      (s.run (firstPoll id)).run (ResolverBudget.giveUp id) :=
    List.foldl_append
  rw [hrun]
  rw [hat.firstPoll_eq] at hparked ⊢
  split_ifs at hparked ⊢ with hwon htwo hthree
  · -- it has the reserved slot
    rw [(hat.put _ _ _).lookup] at hparked
    cases hparked
  · -- it has a shared slot
    rw [(hat.put _ _ _).lookup] at hparked
    cases hparked
  · rw [(hat.put _ _ _).giveUp_shared, put_put]
    exact ⟨_, _, rfl, hreserved, hburst, hshared⟩
  · rw [(hat.put _ _ _).giveUp_burst, put_put]
    exact ⟨_, _, rfl, hreserved, hburst, Same.refl _ _⟩

/-! ### The reserved slot -/

/-- The lookups of a connection that wait for a slot. -/
def Waits (s : ResolverBudget tokio) (c id : ℕ) : Prop :=
  ∃ phase, s.lookups[id]? = some ⟨c, phase⟩ ∧ phase.waits = true

/-- A claim on the reserved slot is that of a lookup that waits or has a slot. -/
theorem waits_of_onReserved {phase : Phase} (h : phase.onReserved ≠ .absent) :
    phase.waits = true ∨ phase.holdsReserved = true ∨ phase.holdsShared = true := by
  cases phase <;> simp_all [Phase.onReserved, Phase.waits, Phase.holdsReserved, Phase.holdsShared]

/-- **The reserved slot is the first in line's**, where its connection has no slot. -/
theorem Sound.ready_of_first (h : Sound s) (hresolver : s.connections[c]? = some resolver)
    (hreserved : s.reservedSlotsOf c = []) (hshared : s.sharedSlotsOf c = [])
    (hfirst : tokio.FirstInLine resolver.reserved (s.Waits c) id) :
    (tokio.poll resolver.reserved id).1 = true := by
  refine (h.reserved c resolver hresolver).ready_of_forall_held Nat.one_pos fun other hheld => ?_
  by_contra hne
  have hclaim := (h.reserved c resolver hresolver).conserves.2 other hheld
  rw [claimOf] at hclaim
  cases hlookup : s.lookups[other]? with
  | none => exact hclaim (by rw [hlookup, Option.elim_none])
  | some lookup =>
      rw [hlookup, Option.elim_some, ofConnection] at hclaim
      split_ifs at hclaim with hconnection
      · obtain ⟨c', phase⟩ := lookup
        obtain rfl : c' = c := hconnection
        rcases waits_of_onReserved hclaim with hwaits | hholds | hholds
        · exact (hfirst other hne ⟨phase, hlookup, hwaits⟩).1 hheld
        · have hmem : other ∈ s.reservedSlotsOf c' :=
            mem_which.mpr ⟨_, hlookup, decide_eq_true ⟨rfl, hholds⟩⟩
          rw [hreserved] at hmem
          cases hmem
        · have hmem : other ∈ s.sharedSlotsOf c' :=
            mem_which.mpr ⟨_, hlookup, decide_eq_true ⟨rfl, hholds⟩⟩
          rw [hshared] at hmem
          cases hmem
      · exact hclaim rfl

/-- A lookup whose poll of the reserved slot will be ready has the slot by its next poll: whether
it is about to be polled or being polled, and it has the permit already if its poll is past the
reserved slot. -/
theorem Sound.granted (h : Sound s) (hat : At s id c phase resolver)
    (hready : (tokio.poll resolver.reserved id).1 = true) (branch : FromShared) :
    (phase = .parked branch →
      (s.run [.outside id .poll, .advance id]).lookups[id]? = some ⟨c, .closing branch true⟩) ∧
    (phase = .asking branch →
      (s.run [.advance id]).lookups[id]? = some ⟨c, .closing branch true⟩) ∧
    (phase = .sharing branch → id ∈ tokio.held resolver.reserved) := by
  refine ⟨?_, ?_, ?_⟩
  · rintro rfl
    simp only [ResolverBudget.run, List.foldl_cons, List.foldl_nil, hat.outside_eq,
      ResolverBudget.outside, (hat.put _ _ _).advance_eq, ResolverBudget.advance, put_put, hready,
      ↓reduceIte]
    exact (hat.put _ _ _).lookup
  · rintro rfl
    simp only [ResolverBudget.run, List.foldl_cons, List.foldl_nil, hat.advance_eq,
      ResolverBudget.advance, hready, ↓reduceIte]
    exact (hat.put _ _ _).lookup
  · rintro rfl
    have hwaiting := (h.reserved _ _ hat.resolver).mem_of_waiting
      (claimOf_own hat.lookup Phase.onReserved)
    by_contra hheld
    rw [tokio.poll_queued _ _ hheld (hwaiting.resolve_left hheld)] at hready
    cases hready

/-! ### The budget -/

/-- A lookup has no permit and no place in a queue. -/
def Gone (tokio : FairSemaphore ℕ) (state : tokio.State) (id : ℕ) : Prop :=
  id ∉ tokio.held state ∧ id ∉ tokio.queue state

/-- **What the budget promises.** -/
structure Keeps (s : ResolverBudget tokio) : Prop where
  /-- The shared slots are within the allowance, and a connection has at most its reserved slot
  and its burst. -/
  bounded : s.sharedSlots.length ≤ sharedLookups ∧
    ∀ c, (s.reservedSlotsOf c).length ≤ 1 ∧ (s.sharedSlotsOf c).length ≤ burstLookups
  /-- Every permit is free, or that of a lookup that holds a slot or waits for one. -/
  conserved : tokio.Conserves s.shared sharedLookups
      (claimOf s.lookups fun lookup => lookup.phase.onShared) ∧
    ∀ (c : ℕ) (resolver : ConnectionResolver tokio), s.connections[c]? = some resolver →
      tokio.Conserves resolver.reserved 1 (claimOf s.lookups (ofConnection c Phase.onReserved)) ∧
      tokio.Conserves resolver.burst burstLookups
        (claimOf s.lookups (ofConnection c Phase.onBurst))
  /-- A lookup that has finished or given up has nothing left. -/
  gone : ∀ (id c : ℕ), s.lookups[id]? = some ⟨c, .done⟩ → Gone tokio s.shared id ∧
    ∀ (c' : ℕ) (resolver : ConnectionResolver tokio), s.connections[c']? = some resolver →
      Gone tokio resolver.reserved id ∧ Gone tokio resolver.burst id
  /-- A lookup that waits and gives up, with nobody in between, leaves every semaphore as it
  found it. -/
  abandoned : ∀ (id c : ℕ) (resolver : ConnectionResolver tokio) (branch : FromShared),
    At s id c (.parked .unpolled) resolver →
    (s.run (firstPoll id)).lookups[id]? = some ⟨c, .parked branch⟩ →
    ∃ (resolver' : ConnectionResolver tokio) (shared' : tokio.State),
      s.run (firstPoll id ++ giveUp id) =
        s.put id ⟨c, .parked .unpolled⟩ .done resolver' shared' ∧
      tokio.Same resolver.reserved resolver'.reserved ∧
      tokio.Same resolver.burst resolver'.burst ∧ tokio.Same s.shared shared'
  /-- Where a connection has no slot, its lookup that is first in line has one by its next poll. -/
  granted : ∀ (id c : ℕ) (phase : Phase) (resolver : ConnectionResolver tokio)
    (branch : FromShared), At s id c phase resolver → s.reservedSlotsOf c = [] →
    s.sharedSlotsOf c = [] → tokio.FirstInLine resolver.reserved (s.Waits c) id →
    (phase = .parked branch →
      (s.run [.outside id .poll, .advance id]).lookups[id]? = some ⟨c, .closing branch true⟩) ∧
    (phase = .asking branch →
      (s.run [.advance id]).lookups[id]? = some ⟨c, .closing branch true⟩) ∧
    (phase = .sharing branch → id ∈ tokio.held resolver.reserved)

/-- A connection that is not there has no slots. -/
theorem Sound.which_eq_nil (h : Sound s) (hnone : s.connections[c]? = none) (p : Lookup → Bool) :
    s.which (fun lookup => lookup.connection = c ∧ p lookup) = [] := by
  refine List.eq_nil_iff_forall_not_mem.mpr fun id hmem => ?_
  obtain ⟨lookup, hlookup, hp⟩ := mem_which.mp hmem
  obtain ⟨rfl, -⟩ := of_decide_eq_true hp
  exact absurd (h.placed id lookup hlookup) (Nat.not_lt.mpr (List.getElem?_eq_none_iff.mp hnone))

/-- **Accounts in order are what the budget promises.** -/
theorem Sound.keeps (h : Sound s) : Keeps s where
  bounded := by
    refine ⟨h.length_sharedSlots_le, fun c => ?_⟩
    cases hresolver : s.connections[c]? with
    | none =>
        have hreserved := h.which_eq_nil hresolver fun lookup => lookup.phase.holdsReserved
        have hshared := h.which_eq_nil hresolver fun lookup => lookup.phase.holdsShared
        rw [reservedSlotsOf, sharedSlotsOf, hreserved, hshared]
        exact ⟨Nat.zero_le _, Nat.zero_le _⟩
    | some resolver =>
        exact ⟨h.length_reservedSlotsOf_le hresolver, h.length_sharedSlotsOf_le hresolver⟩
  conserved := ⟨h.shared.conserves, fun c resolver hresolver =>
    ⟨(h.reserved c resolver hresolver).conserves, (h.burst c resolver hresolver).conserves⟩⟩
  gone := by
    intro id c hdone
    refine ⟨h.shared.notMem_of_absent (claimOf_some hdone _), fun c' resolver hresolver => ?_⟩
    have habsent : ∀ p : Phase → Claim, p .done = .absent →
        claimOf s.lookups (ofConnection c' p) id = .absent := by
      intro p hp
      rw [claimOf_some hdone, ofConnection]
      split_ifs
      · exact hp
      · rfl
    exact ⟨(h.reserved c' resolver hresolver).notMem_of_absent (habsent _ rfl),
      (h.burst c' resolver hresolver).notMem_of_absent (habsent _ rfl)⟩
  abandoned _ _ _ _ hat hparked := h.giveUp hat hparked
  granted _ _ _ _ branch hat hreserved hshared hfirst :=
    h.granted hat (h.ready_of_first hat.resolver hreserved hshared hfirst) branch

end ResolverBudget

/-- **The resolver budget bounds every connection and starves none**, after any interleaving of
the lookups of any number of connections. -/
theorem resolver_budget (tokio : FairSemaphore ℕ) (events : List ResolverBudget.Event) :
    ((ResolverBudget.new tokio).run events).Keeps :=
  (ResolverBudget.sound_run tokio events).keeps

/-- A new lookup that is polled, and takes its slot if there is one. -/
def resolving (connection id : ℕ) : List ResolverBudget.Event :=
  .lookup connection :: ResolverBudget.firstPoll id ++ [.advance id]

/-- A first connection takes its reserved slot and its burst and makes one more lookup, and a second
connection takes its reserved slot and a shared one. -/
def crowded : List ResolverBudget.Event :=
  [.connect, .connect] ++ (List.range 33).flatMap (resolving 0) ++ resolving 1 33 ++
    resolving 1 34 ++ [.lookup 0]

/-- That one lookup waits and is abandoned, another one waits, and the first connection gives back
all of its slots. -/
def vacated : List ResolverBudget.Event :=
  ResolverBudget.firstPoll 35 ++ ResolverBudget.giveUp 35 ++
    .lookup 0 :: ResolverBudget.firstPoll 36 ++
    (List.range 33).flatMap fun id => [.outside id .release, .advance id]

/-- In a crowd a lookup has to wait for its burst, and giving up leaves the shared allowance as it
was; and one that still waits when its connection has no slot any more has the reserved one by its
next poll. -/
theorem resolver_budget_crowded :
    let s := (ResolverBudget.new (FairSemaphore.reference ℕ)).run crowded
    (s.run (ResolverBudget.firstPoll 35)).lookups[35]? = some ⟨0, .parked .burst⟩ ∧
      (∃ resolver shared,
        s.run (ResolverBudget.firstPoll 35 ++ ResolverBudget.giveUp 35) =
          s.put 35 ⟨0, .parked .unpolled⟩ .done resolver shared ∧
        (FairSemaphore.reference ℕ).Same s.shared shared) ∧
      ((s.run vacated).run [.outside 36 .poll, .advance 36]).lookups[36]? =
        some ⟨0, .closing .burst true⟩ := by
  intro s
  have hparked : (s.connections[0]?).isSome = true ∧ s.lookups[35]? = some ⟨0, .parked .unpolled⟩ ∧
      (s.run (ResolverBudget.firstPoll 35)).lookups[35]? = some ⟨0, .parked .burst⟩ := by
    decide +kernel
  obtain ⟨hsome, hlookup, hburst⟩ := hparked
  obtain ⟨resolver, hresolver⟩ := Option.isSome_iff_exists.mp hsome
  refine ⟨hburst, ?_, ?_⟩
  · have hkeeps : s.Keeps := resolver_budget _ crowded
    obtain ⟨resolver', shared', hrun, -, -, hsame⟩ :=
      hkeeps.abandoned 35 0 resolver .burst ⟨hlookup, hresolver⟩ hburst
    exact ⟨resolver', shared', hrun, hsame⟩
  · have hrun : s.run vacated =
        (ResolverBudget.new (FairSemaphore.reference ℕ)).run (crowded ++ vacated) :=
      List.foldl_append.symm
    have hkeeps := resolver_budget (FairSemaphore.reference ℕ) (crowded ++ vacated)
    rw [← hrun] at hkeeps
    have hvacant : ((s.run vacated).connections[0]?).isSome = true ∧
        (s.run vacated).lookups[36]? = some ⟨0, .parked .burst⟩ ∧
        (s.run vacated).reservedSlotsOf 0 = [] ∧ (s.run vacated).sharedSlotsOf 0 = [] ∧
        ((s.run vacated).which fun lookup =>
          lookup.connection = 0 ∧ lookup.phase.waits) = [36] := by
      decide +kernel
    obtain ⟨hsome', hlookup', hreserved, hshared, hwaiting⟩ := hvacant
    obtain ⟨resolver', hresolver'⟩ := Option.isSome_iff_exists.mp hsome'
    refine (hkeeps.granted 36 0 (.parked .burst) resolver' .burst ⟨hlookup', hresolver'⟩ hreserved
      hshared fun b hne hwaits => ?_).1 rfl
    obtain ⟨phase, hb, hphase⟩ := hwaits
    have hmem : b ∈ (s.run vacated).which fun lookup =>
        lookup.connection = 0 ∧ lookup.phase.waits :=
      ResolverBudget.mem_which.mpr ⟨_, hb, decide_eq_true ⟨rfl, hphase⟩⟩
    rw [hwaiting, List.mem_singleton] at hmem
    exact absurd hmem hne

end Resolver

end Volto
