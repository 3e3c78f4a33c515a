import Mathlib.Data.List.Induction
import Volto.Lib.History
import Volto.Lib.Slots
import Volto.Lib.Wakeups

/-!
# The Tunnel Quota

One connection's tunnel budget, `tunnel/quota.rs`, with its guards dropped and its drain polled
by any tasks at once. A `Slot` is dropped in two steps, the permit first and the notification
second, and a `Pending` likewise. A `wait_until_idle` reads the count of tunnels, reads the count
of requests, and polls its `Notified`, each a step of its own with anything in between; it is
dropped only between two of its polls.

The semaphore and the notification are `tokio`'s, any implementation with the laws of
`PermitPool` and `Notify`. The state counts the guards that are outstanding beside what the code
keeps.

## Main results

* `Inv.step`: the counts are exact after every step.
* `Inv.toNat_live`, `Inv.isSome_acquire`: what the counts say.
-/

namespace Volto

namespace Tunnel

/-- What the quota takes from `tokio`. Waits go by their places. -/
structure Sync where
  semaphore : PermitPool
  notify : Notify ℕ
  /-- A `u32` of permits is no more than the semaphore can count. -/
  counts : UInt32.size ≤ semaphore.maxPermits

/-- The laws can be met. -/
def Sync.reference : Sync where
  semaphore := .reference 0x1fffffffffffffff
  notify := .reference ℕ
  counts := by decide

/-- How far a `wait_until_idle` has come. -/
inductive Waiting
  /-- It was never polled. -/
  | created
  /-- It reads the tunnels. -/
  | readLive
  /-- There were none: it reads the requests. -/
  | readPending
  /-- It was busy: it polls a new `Notified`. -/
  | park
  /-- Its last poll was pending. -/
  | parked
  | done
  | dropped
deriving DecidableEq, Repr

/-- Whether a wait may still be polled. -/
def Waiting.alive : Waiting → Bool
  | .done | .dropped => false
  | _ => true

/-- A wait that has found the quota busy, and has yet to be ready. -/
def Waiting.sleeps : Waiting → Prop
  | .park | .parked => True
  | _ => False

/-- A wait that sleeps is still wanted. -/
theorem Waiting.alive_of_sleeps {phase : Waiting} (h : phase.sleeps) : phase.alive = true := by
  cases phase with
  | park | parked => rfl
  | created | readLive | readPending | done | dropped => exact h.elim

/-- One connection's tunnel budget. -/
structure Quota (tokio : Sync) where
  permits : tokio.semaphore.State
  limit : UInt32
  pending : UInt32
  idle : tokio.notify.State
  /-- The `Slot`s that are outstanding. -/
  slots : ℕ
  /-- The `Pending`s that are outstanding. -/
  pendings : ℕ
  /-- Drops that have given back and have not announced it. -/
  releasing : ℕ
  waits : List Waiting

namespace Quota

variable {tokio : Sync}

/-- A quota nobody has taken of. -/
def new (tokio : Sync) (limit : UInt32) : Quota tokio :=
  ⟨tokio.semaphore.new limit.toNat, limit, 0, tokio.notify.new, 0, 0, 0, []⟩

variable (s : Quota tokio)

/-- Takes a slot, or `none` when the connection is at its limit. -/
def acquire : Option (Quota tokio) :=
  (tokio.semaphore.tryAcquire s.permits).map fun permits =>
    { s with permits, slots := s.slots + 1 }

/-- A request has been accepted. -/
def enter : Quota tokio :=
  { s with pending := s.pending + 1, pendings := s.pendings + 1 }

/-- How many tunnels are open. -/
def live : UInt32 :=
  let available := tokio.semaphore.available s.permits
  s.limit - if available < UInt32.size then .ofNat available else s.limit

/-- Whether anything is still being served. -/
def isBusy : Bool :=
  0 < s.live || 0 < s.pending

/-- The first step of dropping a `Slot`. -/
def dropSlot : Quota tokio :=
  if s.slots = 0 then s
  else
    { s with
      permits := tokio.semaphore.release s.permits
      slots := s.slots - 1
      releasing := s.releasing + 1 }

/-- The first step of dropping a `Pending`. -/
def dropPending : Quota tokio :=
  if s.pendings = 0 then s
  else
    { s with
      pending := s.pending - 1
      pendings := s.pendings - 1
      releasing := s.releasing + 1 }

/-- The second step of dropping either. -/
def announce : Quota tokio :=
  if s.releasing = 0 then s
  else { s with idle := tokio.notify.notifyOne s.idle, releasing := s.releasing - 1 }

/-- The next step of a `wait_until_idle`. -/
def waitUntilIdle (w : ℕ) : Waiting → Quota tokio
  | .created | .readLive =>
      if 0 < s.live then { s with waits := s.waits.set w .park }
      else { s with waits := s.waits.set w .readPending }
  | .readPending =>
      if 0 < s.pending then { s with waits := s.waits.set w .park }
      else { s with waits := s.waits.set w .done }
  | .park | .parked =>
      let (ready, idle) := tokio.notify.poll s.idle w
      { s with idle, waits := s.waits.set w (if ready then .readLive else .parked) }
  | .done | .dropped => s

/-- Drops a `wait_until_idle` between two of its polls. -/
def dropWait (w : ℕ) : Waiting → Quota tokio
  | .created => { s with waits := s.waits.set w .dropped }
  | .parked =>
      { s with idle := tokio.notify.drop s.idle w, waits := s.waits.set w .dropped }
  | .readLive | .readPending | .park | .done | .dropped => s

end Quota

/-- What can happen to a quota. -/
inductive QuotaEvent
  | acquire
  | enter
  | dropSlot
  | dropPending
  /-- A drop goes on to its notification. -/
  | announce
  /-- `wait_until_idle` is called. -/
  | wait
  /-- A wait takes its next step. -/
  | advance (w : ℕ)
  | dropWait (w : ℕ)
deriving DecidableEq, Repr

namespace Quota

variable {tokio : Sync}

/-- One step. -/
def step (s : Quota tokio) : QuotaEvent → Quota tokio
  | .acquire => s.acquire.getD s
  | .enter => s.enter
  | .dropSlot => s.dropSlot
  | .dropPending => s.dropPending
  | .announce => s.announce
  | .wait => { s with waits := s.waits ++ [.created] }
  | .advance w =>
      match s.waits[w]? with
      | none => s
      | some phase => s.waitUntilIdle w phase
  | .dropWait w =>
      match s.waits[w]? with
      | none => s
      | some phase => s.dropWait w phase

/-- A run. -/
def run (s : Quota tokio) (events : List QuotaEvent) : Quota tokio :=
  History.run step s events

/-- A run ends with its last event. -/
@[simp] theorem run_concat (s : Quota tokio) (events : List QuotaEvent) (event : QuotaEvent) :
    s.run (events ++ [event]) = (s.run events).step event :=
  History.run_concat step s events event

/-- A run begins with its first event. -/
theorem run_cons (s : Quota tokio) (event : QuotaEvent) (events : List QuotaEvent) :
    s.run (event :: events) = (s.step event).run events := rfl

/-- A wait that is on record takes its next step. -/
theorem step_advance {s : Quota tokio} {w : ℕ} {phase : Waiting}
    (hw : s.waits[w]? = some phase) : s.step (.advance w) = s.waitUntilIdle w phase := by
  simp only [step, hw]

/-- A wait that is not on record takes none. -/
theorem step_advance_of_none {s : Quota tokio} {w : ℕ} (hw : s.waits[w]? = none) :
    s.step (.advance w) = s := by
  simp only [step, hw]

/-! ### The counts -/

/-- **The counts are exact**, and the tickets of the notification are the waits that are parked. -/
structure Inv (limit : UInt32) (s : Quota tokio) : Prop where
  same : s.limit = limit
  permits : tokio.semaphore.available s.permits + s.slots = limit.toNat
  pending : s.pending.toNat = s.pendings % UInt32.size
  tidy : Notify.Tidy tokio.notify s.idle fun w => s.waits[w]? = some .parked

variable {limit : UInt32} {s : Quota tokio} {w : ℕ} {phase phase' : Waiting}

/-- The invariant holds of a new quota. -/
theorem inv_new (limit : UInt32) : Inv limit (new tokio limit) where
  same := rfl
  permits := tokio.semaphore.available_new _ (limit.toNat_lt.le.trans tokio.counts)
  pending := rfl
  tidy := Notify.tidy_new fun _ => by simp [new]

/-- The wait of a ticket moves on, and the others stay. -/
theorem parked_set (hw : s.waits[w]? = some phase) {v : ℕ} (hv : v ≠ w) :
    (s.waits.set w phase')[v]? = some .parked ↔ s.waits[v]? = some .parked := by
  rw [Slots.getElem?_set hw]
  simp [hv]

/-- A wait is parked exactly if it has just gone to sleep. -/
theorem parked_set_self (hw : s.waits[w]? = some phase) :
    (s.waits.set w phase')[w]? = some .parked ↔ phase' = .parked := by
  rw [Slots.getElem?_set hw]
  simp [eq_comm]

/-- A wait moves on, and neither comes to be parked nor was. -/
theorem Inv.goto (h : Inv limit s) (hw : s.waits[w]? = some phase) (hphase : phase ≠ .parked)
    (hphase' : phase' ≠ .parked) : Inv limit { s with waits := s.waits.set w phase' } := by
  refine { h with tidy := h.tidy.congr fun v => ?_ }
  by_cases hv : v = w
  · subst hv
    rw [parked_set_self hw, hw, Option.some.injEq]
    exact ⟨fun heq => absurd heq hphase', fun heq => absurd heq hphase⟩
  · exact parked_set hw hv

/-- A step of a wait keeps the invariant. -/
theorem Inv.waitUntilIdle (h : Inv limit s) (hw : s.waits[w]? = some phase) :
    Inv limit (s.waitUntilIdle w phase) := by
  cases phase with
  | created | readLive | readPending =>
      rw [Quota.waitUntilIdle]
      split_ifs
      · exact h.goto hw nofun nofun
      · exact h.goto hw nofun nofun
  | park | parked =>
      rw [Quota.waitUntilIdle]
      cases hready : (tokio.notify.poll s.idle w).1 with
      | true =>
          refine { h with tidy := h.tidy.poll_ready hready ?_ fun v hv => parked_set hw hv }
          rw [parked_set_self hw, hready]
          exact nofun
      | false =>
          refine { h with tidy := h.tidy.poll_pending hready ?_ fun v hv => parked_set hw hv }
          rw [parked_set_self hw, hready]
          rfl
  | done | dropped => exact h

/-- An abandoned wait keeps the invariant. -/
theorem Inv.dropWait (h : Inv limit s) (hw : s.waits[w]? = some phase) :
    Inv limit (s.dropWait w phase) := by
  cases phase with
  | created => exact h.goto hw nofun nofun
  | parked =>
      exact { h with
        tidy := h.tidy.drop hw (mt (parked_set_self hw).mp nofun) fun v hv => parked_set hw hv }
  | readLive | readPending | park | done | dropped => exact h

/-- Taking a slot keeps the invariant. -/
theorem Inv.acquire (h : Inv limit s) {s' : Quota tokio} (hs' : s.acquire = some s') :
    Inv limit s' := by
  obtain ⟨permits, hpermits, rfl⟩ := Option.map_eq_some_iff.mp hs'
  have havailable := PermitPool.available_of_tryAcquire hpermits
  have htotal := h.permits
  exact { h with permits := by simp only; omega }

/-- Giving a slot back keeps the invariant. -/
theorem Inv.dropSlot (h : Inv limit s) : Inv limit s.dropSlot := by
  rw [Quota.dropSlot]
  split_ifs with hzero
  · exact h
  · have htotal := h.permits
    have hlt : limit.toNat < UInt32.size := limit.toNat_lt
    have hmax := tokio.counts
    have hrelease := tokio.semaphore.available_release s.permits (by omega)
    exact { h with permits := by simp only; omega }

/-- Ending a pending handler keeps the invariant. -/
theorem Inv.dropPending (h : Inv limit s) : Inv limit s.dropPending := by
  rw [Quota.dropPending]
  split_ifs with hzero
  · exact h
  · have hpending := h.pending
    refine { h with pending := ?_ }
    simp only [UInt32.toNat_sub, UInt32.toNat_one]
    rw [hpending]
    simp only [UInt32.size]
    omega

/-- **Every step keeps the counts.** -/
theorem Inv.step (h : Inv limit s) (event : QuotaEvent) : Inv limit (s.step event) := by
  cases event with
  | acquire =>
      rw [Quota.step]
      cases hacquire : s.acquire with
      | none => exact h
      | some s' => exact h.acquire hacquire
  | enter =>
      refine { h with pending := ?_ }
      simp only [Quota.step, enter, UInt32.toNat_add, UInt32.toNat_one, h.pending, UInt32.size]
      omega
  | dropSlot => exact h.dropSlot
  | dropPending => exact h.dropPending
  | announce =>
      rw [Quota.step, announce]
      split_ifs
      · exact h
      · exact { h with tidy := h.tidy.notifyOne }
  | wait =>
      refine { h with tidy := h.tidy.congr fun v => ?_ }
      simp [Quota.step, Slots.getElem?_concat]
  | advance w =>
      rw [Quota.step]
      split
      · exact h
      · rename_i phase hw
        exact h.waitUntilIdle hw
  | dropWait w =>
      rw [Quota.step]
      split
      · exact h
      · rename_i phase hw
        exact h.dropWait hw

/-- **Run lemma**: the invariant holds after every list of events. -/
theorem inv_run (limit : UInt32) (events : List QuotaEvent) :
    Inv limit ((new tokio limit).run events) :=
  History.run_invariant (fun _ event hinv => hinv.step event) (inv_new limit) events

/-- The tunnels that are counted are those that are open. -/
theorem Inv.toNat_live (h : Inv limit s) : s.live.toNat = s.slots := by
  have htotal := h.permits
  have hlt : limit.toNat < UInt32.size := limit.toNat_lt
  have havailable : (UInt32.ofNat (tokio.semaphore.available s.permits)).toNat =
      tokio.semaphore.available s.permits :=
    UInt32.toNat_ofNat_of_lt' (by omega)
  have hle : UInt32.ofNat (tokio.semaphore.available s.permits) ≤ limit := by
    rw [UInt32.le_iff_toNat_le, havailable]
    omega
  rw [live, h.same, if_pos (by omega), UInt32.toNat_sub_of_le _ _ hle, havailable]
  omega

/-- No more slots are out than the limit. -/
theorem Inv.slots_le (h : Inv limit s) : s.slots ≤ limit.toNat := by
  have htotal := h.permits
  omega

/-- The live count is positive exactly while a slot is out. -/
theorem Inv.live_pos (h : Inv limit s) : 0 < s.live ↔ 0 < s.slots := by
  rw [UInt32.lt_iff_toNat_lt, h.toNat_live]
  rfl

/-- A slot is taken where there is room. -/
theorem Inv.isSome_acquire (h : Inv limit s) : s.acquire.isSome = true ↔ s.live < limit := by
  have htotal := h.permits
  rw [UInt32.lt_iff_toNat_lt, h.toNat_live, Quota.acquire, Option.isSome_map,
    PermitPool.tryAcquire_isSome]
  omega

/-- The pending count is positive exactly while a handler is pending, if they fit a `u32`. -/
theorem Inv.pending_pos (h : Inv limit s) (hfew : s.pendings < UInt32.size) :
    0 < s.pending ↔ 0 < s.pendings := by
  rw [UInt32.lt_iff_toNat_lt, h.pending, Nat.mod_eq_of_lt hfew]
  rfl

/-- A positive pending count means that a handler is pending. -/
theorem Inv.pendings_pos (h : Inv limit s) (hpos : 0 < s.pending) : 0 < s.pendings := by
  rw [UInt32.lt_iff_toNat_lt, h.pending] at hpos
  exact Nat.pos_of_ne_zero fun hzero => by simp [hzero] at hpos

end Quota

end Tunnel

end Volto
