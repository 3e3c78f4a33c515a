import Mathlib.Data.List.Induction
import Volto.Lib.History

/-!
# Admission at the Connection Cap

`Server::admit` and the registration of `Server::serve` in `quic/mod.rs`, over the roster of
`quic/roster.rs`. The accept loop handles one arrival at a time: it reads the cap, measures the
roster, judges the address, evicts the oldest connections that have never authenticated, measures
again and registers the newcomer. Meanwhile connections authenticate and end, and a reload moves
the cap.

Each of these is a step of its own. The eviction holds the lock of the roster, so that no
connection leaves the roster while it runs; but a gate opens without that lock, also between the
read of it and the removal of its connection.

Connections are named by their accept sequence, so the roster is in the order of its map.

## Main results

* `Inv.step`: what a call knows about the roster at each of its steps.
* `admission_safe`: admission is safe under any load, with victims as their gates were read.
-/

namespace Volto

namespace Admission

/-- What `admit` asks an `Incoming`. -/
structure Arrival where
  /-- `remote_address_validated` -/
  validated : Bool
  /-- `may_retry` -/
  mayRetry : Bool
  /-- Whether `retry` returns an error. -/
  retryFails : Bool
deriving DecidableEq, Repr

/-- What became of an arrival. -/
inductive Outcome
  /-- Registered, and served from then on. -/
  | served
  /-- Asked to come back with a token. -/
  | retried
  | refused
deriving DecidableEq, Repr

/-- How far the accept loop has come with an arrival. -/
inductive Admitting
  /-- Reads `max_connections`. -/
  | start
  /-- Reads the length of the roster. -/
  | measure (cap : ℕ)
  /-- At the cap: looks at the address. -/
  | judge (cap : ℕ)
  /-- Takes the lock of the roster, for `evict_until_below`. -/
  | lock (cap : ℕ)
  /-- Holds the lock, and compares the length with the cap. -/
  | loop (cap : ℕ) (victims : List ℕ)
  /-- Holds the lock, and reads the next gate for `evict_oldest_from`. -/
  | find (cap : ℕ) (victims rest : List ℕ)
  /-- Holds the lock, and removes the slot it has found. -/
  | remove (cap : ℕ) (victims : List ℕ) (victim : ℕ)
  /-- Reads the length of the roster once more. -/
  | measureAgain (cap : ℕ) (victims : List ℕ)
  /-- Registers the newcomer. -/
  | serve (cap : ℕ) (victims : List ℕ)
deriving DecidableEq, Repr

/-- Whether the accept loop holds the lock of the roster. -/
def Admitting.locked : Admitting → Bool
  | .loop _ _ | .find _ _ _ | .remove _ _ _ => true
  | _ => false

/-- The connections evicted so far for an arrival. -/
def Admitting.victims : Admitting → List ℕ
  | .loop _ victims | .find _ victims _ | .remove _ victims _ | .measureAgain _ victims
  | .serve _ victims => victims
  | .start | .measure _ | .judge _ | .lock _ => []

/-- An arrival that has been dealt with. -/
structure Handled where
  arrival : Arrival
  victims : List ℕ
  outcome : Outcome
deriving DecidableEq, Repr

/-- A server at its accept loop. -/
structure Server where
  /-- `limits.max_connections` of the live configuration; 0 is no cap. -/
  maxConnections : ℕ
  /-- The connections that hold a slot, oldest first. -/
  roster : List ℕ
  /-- The gate of every connection there has been, by its sequence number. -/
  gates : List Bool
  /-- The arrival the accept loop is at. -/
  current : Option (Arrival × Admitting)
  /-- The arrivals it has dealt with. -/
  handled : List Handled
deriving DecidableEq, Repr

namespace Server

/-- A server before its first arrival. -/
def new (maxConnections : ℕ) : Server :=
  ⟨maxConnections, [], [], none, []⟩

variable (s : Server)

/-- Whether a connection has authenticated. -/
def isOpen (connection : ℕ) : Bool :=
  (s.gates[connection]?).getD false

/-- The call at work holds the lock. -/
def locked : Bool :=
  s.current.any fun call => call.2.locked

/-- The accept loop is done with an arrival. -/
def finish (arrival : Arrival) (victims : List ℕ) (outcome : Outcome) : Server :=
  { s with current := none, handled := s.handled ++ [⟨arrival, victims, outcome⟩] }

/-- The next step of the accept loop. -/
def admitArrival (arrival : Arrival) : Admitting → Server
  | .start =>
      if s.maxConnections = 0 then { s with current := some (arrival, .serve 0 []) }
      else { s with current := some (arrival, .measure s.maxConnections) }
  | .measure cap =>
      if s.roster.length < cap then { s with current := some (arrival, .serve cap []) }
      else { s with current := some (arrival, .judge cap) }
  | .judge cap =>
      if arrival.validated then { s with current := some (arrival, .lock cap) }
      else if arrival.mayRetry ∧ ¬arrival.retryFails then s.finish arrival [] .retried
      else s.finish arrival [] .refused
  | .lock cap => { s with current := some (arrival, .loop cap []) }
  | .loop cap victims =>
      if cap ≤ s.roster.length then { s with current := some (arrival, .find cap victims s.roster) }
      else { s with current := some (arrival, .measureAgain cap victims) }
  | .find cap victims [] => { s with current := some (arrival, .measureAgain cap victims) }
  | .find cap victims (connection :: rest) =>
      if s.isOpen connection then { s with current := some (arrival, .find cap victims rest) }
      else { s with current := some (arrival, .remove cap victims connection) }
  | .remove cap victims victim =>
      { s with
        roster := s.roster.erase victim
        current := some (arrival, .loop cap (victims ++ [victim])) }
  | .measureAgain cap victims =>
      if cap ≤ s.roster.length then s.finish arrival victims .refused
      else { s with current := some (arrival, .serve cap victims) }
  | .serve _ victims =>
      { s.finish arrival victims .served with
        roster := s.roster ++ [s.gates.length]
        gates := s.gates ++ [false] }

end Server

/-- What can happen to a server. -/
inductive Event
  /-- The accept loop takes a connection off the endpoint. -/
  | arrive (arrival : Arrival)
  /-- The accept loop takes its next step. -/
  | advance
  /-- A request passes the credentials check of a connection. -/
  | mark (connection : ℕ)
  /-- A connection ends, and drops its registration. -/
  | ended (connection : ℕ)
  | reload (maxConnections : ℕ)
deriving DecidableEq, Repr

namespace Server

/-- One step. -/
def step (s : Server) : Event → Server
  | .arrive arrival =>
      match s.current with
      | none => { s with current := some (arrival, .start) }
      | some _ => s
  | .advance =>
      match s.current with
      | none => s
      | some (arrival, call) => s.admitArrival arrival call
  | .mark connection => { s with gates := s.gates.set connection true }
  -- a registration is dropped under the lock of the roster
  | .ended connection => if s.locked then s else { s with roster := s.roster.erase connection }
  | .reload maxConnections => { s with maxConnections }

/-- A run. -/
def run (s : Server) (events : List Event) : Server :=
  events.foldl step s

/-- A run ends with its last event. -/
@[simp] theorem run_concat (s : Server) (events : List Event) (event : Event) :
    s.run (events ++ [event]) = (s.run events).step event := by
  simp [run]

/-! ### What the accept loop knows -/

/-- What a call knows about the roster at each of its steps. -/
def Knows (s : Server) (arrival : Arrival) : Admitting → Prop
  | .start => True
  | .measure cap | .judge cap => 0 < cap
  | .lock cap | .loop cap _ | .measureAgain cap _ => 0 < cap ∧ arrival.validated = true
  | .find cap _ rest =>
      arrival.validated = true ∧ 0 < cap ∧ cap ≤ s.roster.length ∧
        ∃ read, s.roster = read ++ rest ∧ ∀ connection ∈ read, s.isOpen connection = true
  | .remove cap _ victim =>
      arrival.validated = true ∧ 0 < cap ∧ cap ≤ s.roster.length ∧ victim ∈ s.roster
  | .serve cap victims =>
      (cap ≠ 0 → s.roster.length < cap) ∧ (victims ≠ [] → arrival.validated = true)

/-- What the accept loop knows of the arrival it is at. -/
def Inv (s : Server) : Prop :=
  ∀ arrival call, s.current = some (arrival, call) → Knows s arrival call

/-- The invariant holds of a new server. -/
theorem inv_new (maxConnections : ℕ) : Inv (new maxConnections) := by
  intro arrival call h
  cases h

variable {s : Server} {arrival : Arrival} {call : Admitting}

/-- A gate never closes. -/
theorem isOpen_mark (connection : ℕ) {other : ℕ} (h : s.isOpen other = true) :
    ({ s with gates := s.gates.set connection true } : Server).isOpen other = true := by
  rw [isOpen] at h ⊢
  rw [List.getElem?_set]
  split_ifs with heq hlt
  · rfl
  · subst heq
    rw [List.getElem?_eq_none (Nat.not_lt.mp hlt)] at h
    cases h
  · exact h

/-- What a call knows survives what others do: gates that open, and a roster that shrinks while
it is not locked. -/
theorem Knows.mono {s' : Server} (h : Knows s arrival call)
    (hopen : ∀ connection, s.isOpen connection = true → s'.isOpen connection = true)
    (hlocked : call.locked = true → s'.roster = s.roster)
    (hle : s'.roster.length ≤ s.roster.length) : Knows s' arrival call := by
  cases call with
  | start => trivial
  | measure cap | judge cap | lock cap | loop cap victims | measureAgain cap victims => exact h
  | find cap victims rest =>
      obtain ⟨hvalidated, hpos, hcap, read, hsplit, hread⟩ := h
      rw [Knows, hlocked rfl]
      exact ⟨hvalidated, hpos, hcap, read, hsplit, fun c hc => hopen c (hread c hc)⟩
  | remove cap victims victim =>
      rw [Knows, hlocked rfl]
      exact h
  | serve cap victims => exact ⟨fun hcap => Nat.lt_of_le_of_lt hle (h.1 hcap), h.2⟩

/-- What a call knows stays true as it moves on. -/
theorem Knows.goto (h : Knows s arrival call) : Inv { s with current := some (arrival, call) } := by
  intro arrival' call' hcurrent
  cases hcurrent
  exact h.mono (fun _ => id) (fun _ => rfl) (Nat.le_refl _)

/-- The invariant holds when a call has ended. -/
theorem inv_finish (victims : List ℕ) (outcome : Outcome) :
    Inv (s.finish arrival victims outcome) := by
  intro arrival' call' hcurrent
  cases hcurrent

/-- **Each step of the accept loop leaves it knowing what the next needs.** -/
theorem Knows.admitArrival (h : Knows s arrival call) : Inv (s.admitArrival arrival call) := by
  cases call with
  | start =>
      rw [Server.admitArrival]
      split_ifs with hzero
      · exact Knows.goto ⟨fun hne => absurd rfl hne, fun hne => absurd rfl hne⟩
      · exact Knows.goto (Nat.pos_of_ne_zero hzero)
  | measure cap =>
      rw [Server.admitArrival]
      split_ifs with hlt
      · exact Knows.goto ⟨fun _ => hlt, fun hne => absurd rfl hne⟩
      · exact Knows.goto h
  | judge cap =>
      rw [Server.admitArrival]
      split_ifs with hvalidated
      · exact Knows.goto ⟨h, hvalidated⟩
      · exact inv_finish _ _
      · exact inv_finish _ _
  | lock cap => exact Knows.goto h
  | loop cap victims =>
      rw [Server.admitArrival]
      split_ifs with hcap
      · exact Knows.goto ⟨h.2, h.1, hcap, [], rfl, by simp⟩
      · exact Knows.goto h
  | find cap victims rest =>
      obtain ⟨hvalidated, hpos, hcap, read, hsplit, hread⟩ := h
      cases rest with
      | nil => exact Knows.goto ⟨hpos, hvalidated⟩
      | cons connection rest =>
          rw [Server.admitArrival]
          split_ifs with hopen
          · refine Knows.goto ⟨hvalidated, hpos, hcap, read ++ [connection], by simp [hsplit], ?_⟩
            intro c hc
            rcases List.mem_append.mp hc with hc | hc
            · exact hread c hc
            · exact List.mem_singleton.mp hc ▸ hopen
          · exact Knows.goto ⟨hvalidated, hpos, hcap, by simp [hsplit]⟩
  | remove cap victims victim =>
      have hloop : Knows { s with roster := s.roster.erase victim } arrival
          (.loop cap (victims ++ [victim])) :=
        ⟨h.2.1, h.1⟩
      exact hloop.goto
  | measureAgain cap victims =>
      rw [Server.admitArrival]
      split_ifs with hcap
      · exact inv_finish _ _
      · exact Knows.goto ⟨fun _ => Nat.not_le.mp hcap, fun _ => h.2⟩
  | serve cap victims =>
      intro arrival' call' hcurrent
      cases hcurrent

/-- **Every step keeps it.** -/
theorem Inv.step (h : Inv s) (event : Event) : Inv (s.step event) := by
  cases event with
  | arrive arrival =>
      rw [Server.step]
      split
      · exact Knows.goto trivial
      · exact h
  | advance =>
      rw [Server.step]
      split
      · exact h
      · rename_i arrival call hcurrent
        exact (h arrival call hcurrent).admitArrival
  | mark connection =>
      intro arrival call hcurrent
      exact (h arrival call hcurrent).mono (fun _ => isOpen_mark connection) (fun _ => rfl)
        (Nat.le_refl _)
  | ended connection =>
      rw [Server.step]
      split_ifs with hlocked
      · exact h
      · intro arrival call hcurrent
        refine (h arrival call hcurrent).mono (fun _ => id) (fun hcall => ?_)
          List.length_erase_le
        exact absurd (by rw [locked, (hcurrent : s.current = _)]; exact hcall) hlocked
  | reload maxConnections =>
      intro arrival call hcurrent
      exact (h arrival call hcurrent).mono (fun _ => id) (fun _ => rfl) (Nat.le_refl _)

/-- **Run lemma**: the invariant holds along every interleaving. -/
theorem Inv.run (h : Inv s) (events : List Event) : Inv (s.run events) :=
  History.run_invariant (fun _ event hinv => hinv.step event) h events

/-- The invariant holds of a new server's every run. -/
theorem inv_run (maxConnections : ℕ) (events : List Event) :
    Inv ((new maxConnections).run events) :=
  (inv_new maxConnections).run events

/-! ### Where a call comes from -/

/-- What happens beside the accept loop leaves its call where it is. -/
theorem step_beside {event : Event} (hevent : event ≠ .advance)
    (hcurrent : (s.step event).current = some (arrival, call)) (hcall : call ≠ .start) :
    s.current = some (arrival, call) ∧ (s.step event).handled = s.handled ∧
      (s.step event).roster.length ≤ s.roster.length := by
  cases event with
  | arrive arrival' =>
      cases hsome : s.current with
      | none =>
          simp only [step, hsome] at hcurrent
          cases hcurrent
          exact absurd rfl hcall
      | some busy =>
          have hstep : s.step (.arrive arrival') = s := by simp only [step, hsome]
          rw [hstep] at hcurrent ⊢
          exact ⟨hsome ▸ hcurrent, rfl, Nat.le_refl _⟩
  | advance => exact absurd rfl hevent
  | mark connection => exact ⟨hcurrent, rfl, Nat.le_refl _⟩
  | ended connection =>
      rw [step] at hcurrent ⊢
      split_ifs at hcurrent ⊢
      · exact ⟨hcurrent, rfl, Nat.le_refl _⟩
      · exact ⟨hcurrent, rfl, List.length_erase_le⟩
  | reload maxConnections => exact ⟨hcurrent, rfl, Nat.le_refl _⟩

variable {arrival' : Arrival} {cap victim : ℕ} {victims : List ℕ}

/-- The eviction ends below the cap, or with every gate read open. -/
theorem admitArrival_measureAgain
    (h : (s.admitArrival arrival call).current = some (arrival', .measureAgain cap victims)) :
    arrival' = arrival ∧ (s.admitArrival arrival call).handled = s.handled ∧
      (s.admitArrival arrival call).roster = s.roster ∧
      (s.roster.length < cap ∨ call = .find cap victims []) := by
  cases call with
  | loop cap' victims' =>
      rw [admitArrival] at h ⊢
      split_ifs at h ⊢ with hcap
      · cases h
      · cases h
        exact ⟨rfl, rfl, rfl, .inl (Nat.not_le.mp hcap)⟩
  | find cap' victims' rest =>
      cases rest with
      | nil =>
          cases h
          exact ⟨rfl, rfl, rfl, .inr rfl⟩
      | cons connection rest =>
          rw [admitArrival] at h
          split_ifs at h <;> cases h
  | start | measure | judge | measureAgain =>
      rw [admitArrival] at h
      split_ifs at h <;> cases h
  | lock | remove | serve => cases h

/-- A connection is removed because its gate was read closed. -/
theorem admitArrival_remove
    (h : (s.admitArrival arrival call).current = some (arrival', .remove cap victims victim)) :
    arrival' = arrival ∧ (s.admitArrival arrival call).roster = s.roster ∧
      s.isOpen victim = false ∧ ∃ rest, call = .find cap victims (victim :: rest) := by
  cases call with
  | find cap' victims' rest =>
      cases rest with
      | nil => cases h
      | cons connection rest =>
          rw [admitArrival] at h ⊢
          split_ifs at h ⊢ with hopen
          · cases h
          · cases h
            exact ⟨rfl, rfl, by simpa using hopen, rest, rfl⟩
  | start | measure | judge | loop | measureAgain =>
      rw [admitArrival] at h
      split_ifs at h <;> cases h
  | lock | remove | serve => cases h

/-! ### Moments of a call -/

/-- At least so many connections are live, and every one of them has authenticated. -/
def Full (s : Server) (cap : ℕ) : Prop :=
  cap ≤ s.roster.length ∧ ∀ connection ∈ s.roster, s.isOpen connection = true

/-- A moment of a run at which the accept loop was at the arrival it is at now. -/
structure Moment (initial : Server) (events front : List Event) (arrival : Arrival) : Prop where
  earlier : front <+: events
  same : (initial.run front).handled = (initial.run events).handled
  call : ∃ call, (initial.run front).current = some (arrival, call)

/-- A moment stays one when the next event handles nothing. -/
theorem Moment.concat {initial : Server} {events front : List Event} {event : Event}
    (h : Moment initial events front arrival)
    (hsame : ((initial.run events).step event).handled = (initial.run events).handled) :
    Moment initial (events ++ [event]) front arrival where
  earlier := h.earlier.trans (List.prefix_append _ _)
  same := by
    rw [run_concat, hsame]
    exact h.same
  call := h.call

/-- **A roster that is full after the eviction was full, and authenticated, at a moment of the
same call.** -/
theorem full_of_measureAgain (maxConnections : ℕ) {events : List Event}
    (hcurrent : ((new maxConnections).run events).current =
      some (arrival, .measureAgain cap victims))
    (hfull : cap ≤ ((new maxConnections).run events).roster.length) :
    ∃ front, Moment (new maxConnections) events front arrival ∧
      Full ((new maxConnections).run front) cap := by
  induction events using List.reverseRecOn with
  | nil => cases hcurrent
  | append_singleton events event ih =>
      have hinv := inv_run maxConnections events
      rw [run_concat] at hcurrent hfull
      by_cases hevent : event = .advance
      · subst hevent
        rw [step] at hcurrent hfull
        split at hcurrent
        · rename_i hnone
          rw [hnone] at hcurrent
          cases hcurrent
        · rename_i before call hbefore
          obtain ⟨rfl, hhandled, hroster, hlt | rfl⟩ := admitArrival_measureAgain hcurrent
          · simp only [hbefore, hroster] at hfull
            omega
          · -- the last gate has been read: this is the moment
            obtain ⟨-, -, hcap, read, hsplit, hread⟩ := hinv _ _ hbefore
            rw [List.append_nil] at hsplit
            refine ⟨events, ⟨List.prefix_append _ _, ?_, ⟨_, hbefore⟩⟩, hcap, ?_⟩
            · rw [run_concat, step]
              simp only [hbefore, hhandled]
            · rw [hsplit]
              exact hread
      · obtain ⟨hbefore, hhandled, hle⟩ := step_beside hevent hcurrent nofun
        obtain ⟨front, hmoment, hfront⟩ := ih hbefore (Nat.le_trans hfull hle)
        exact ⟨front, hmoment.concat hhandled, hfront⟩

/-- **The gate of a victim was closed when the accept loop read it**, with nothing but what others
do between the read and the removal. -/
theorem read_closed_of_remove (maxConnections : ℕ) {events : List Event}
    (hcurrent : ((new maxConnections).run events).current =
      some (arrival, .remove cap victims victim)) :
    ∃ front beside, events = front ++ .advance :: beside ∧ .advance ∉ beside ∧
      (∃ rest, ((new maxConnections).run front).current =
        some (arrival, .find cap victims (victim :: rest))) ∧
      ((new maxConnections).run front).isOpen victim = false := by
  refine History.exists_last
    (Q := fun s : Server => s.current = some (arrival, .remove cap victims victim))
    (R := fun before _ => (∃ rest, before.current =
      some (arrival, .find cap victims (victim :: rest))) ∧ before.isOpen victim = false)
    ?_ (fun front hafter => ?_) (fun t event hne hafter => ?_) hcurrent
  · exact fun hnew => by cases hnew
  · change (((new maxConnections).run front).step .advance).current = _ at hafter
    rw [step] at hafter
    split at hafter
    · rename_i hnone
      rw [hnone] at hafter
      cases hafter
    · rename_i before call hbefore
      obtain ⟨rfl, -, hclosed, rest, rfl⟩ := admitArrival_remove hafter
      exact ⟨⟨rest, hbefore⟩, hclosed⟩
  · exact ⟨(step_beside hne hafter nofun).1, fun _ hread => hread⟩

/-! ### Evictions -/

/-- The next step of the accept loop takes a connection off the roster. -/
def Evicts (s : Server) (connection : ℕ) : Prop :=
  connection ∈ s.roster ∧ connection ∉ (s.step .advance).roster

/-- Only the removal of a victim and a registration change the roster. -/
theorem roster_admitArrival (hremove : ∀ cap victims victim, call ≠ .remove cap victims victim)
    (hserve : ∀ cap victims, call ≠ .serve cap victims) :
    (s.admitArrival arrival call).roster = s.roster := by
  cases call with
  | remove cap victims victim => exact absurd rfl (hremove cap victims victim)
  | serve cap victims => exact absurd rfl (hserve cap victims)
  | find cap victims rest =>
      cases rest with
      | nil => rfl
      | cons connection rest =>
          rw [admitArrival]
          split_ifs <;> rfl
  | start | measure | judge | loop | measureAgain =>
      rw [admitArrival]
      split_ifs <;> rfl
  | lock => rfl

/-- A connection is evicted where its slot is removed. -/
theorem Evicts.remove {connection : ℕ} (h : s.Evicts connection) :
    ∃ arrival cap victims, s.current = some (arrival, .remove cap victims connection) := by
  obtain ⟨hmem, hgone⟩ := h
  cases hcurrent : s.current with
  | none =>
      simp only [step, hcurrent] at hgone
      exact absurd hmem hgone
  | some current =>
      obtain ⟨arrival, call⟩ := current
      simp only [step, hcurrent] at hgone
      by_cases hremove : ∃ cap victims victim, call = .remove cap victims victim
      · obtain ⟨cap, victims, victim, rfl⟩ := hremove
        refine ⟨arrival, cap, victims, ?_⟩
        by_cases heq : connection = victim
        · rw [heq]
        · exact absurd ((List.mem_erase_of_ne heq).mpr hmem) hgone
      · by_cases hserve : ∃ cap victims, call = .serve cap victims
        · obtain ⟨cap, victims, rfl⟩ := hserve
          exact absurd (List.mem_append_left _ hmem) hgone
        · rw [roster_admitArrival
            (fun cap victims victim heq => hremove ⟨cap, victims, victim, heq⟩)
            (fun cap victims heq => hserve ⟨cap, victims, heq⟩)] at hgone
          exact absurd hmem hgone

/-- An arrival whose address is not validated evicts nobody. -/
theorem Inv.not_evicts (h : Inv s) (hcurrent : s.current = some (arrival, call))
    (hvalidated : arrival.validated = false) (connection : ℕ) : ¬s.Evicts connection := by
  intro hevicts
  obtain ⟨arrival', cap, victims, hremove⟩ := hevicts.remove
  rw [hcurrent, Option.some.injEq, Prod.mk.injEq] at hremove
  obtain ⟨rfl, rfl⟩ := hremove
  rw [(h _ _ hcurrent).1] at hvalidated
  cases hvalidated

/-- Serving apart, a call of an unvalidated address leaves the roster. -/
theorem Inv.roster_unvalidated (h : Inv s) (hcurrent : s.current = some (arrival, call))
    (hvalidated : arrival.validated = false) (hserve : ∀ cap victims, call ≠ .serve cap victims) :
    (s.step .advance).roster = s.roster := by
  simp only [Server.step, hcurrent]
  refine roster_admitArrival (fun cap victims victim heq => ?_) hserve
  subst heq
  rw [(h _ _ hcurrent).1] at hvalidated
  cases hvalidated

/-- A validated arrival is refused by the second look at the roster. -/
theorem measureAgain_of_refused (hvalidated : arrival.validated = true)
    (h : (s.step .advance).handled = s.handled ++ [⟨arrival, victims, .refused⟩]) :
    ∃ cap, s.current = some (arrival, .measureAgain cap victims) ∧ cap ≤ s.roster.length := by
  have hsame : s.handled ≠ s.handled ++ [⟨arrival, victims, .refused⟩] := by simp
  cases hcurrent : s.current with
  | none =>
      simp only [step, hcurrent] at h
      exact absurd h hsame
  | some current =>
      obtain ⟨arrival', call⟩ := current
      simp only [step, hcurrent] at h
      cases call with
      | judge cap =>
          rw [admitArrival] at h
          split_ifs at h with hvalidated'
          · exact absurd h hsame
          · cases List.append_cancel_left h
          · cases List.append_cancel_left h
            exact absurd hvalidated hvalidated'
      | measureAgain cap victims' =>
          rw [admitArrival] at h
          split_ifs at h with hcap
          · cases List.append_cancel_left h
            exact ⟨cap, rfl, hcap⟩
          · exact absurd h hsame
      | serve cap victims' => cases List.append_cancel_left h
      | find cap victims' rest =>
          cases rest with
          | nil => exact absurd h hsame
          | cons connection rest =>
              rw [admitArrival] at h
              split_ifs at h
              · exact absurd h hsame
              · exact absurd h hsame
      | start | measure | loop =>
          rw [admitArrival] at h
          split_ifs at h
          · exact absurd h hsame
          · exact absurd h hsame
      | lock | remove => exact absurd h hsame

/-! ### A steady cap -/

/-- What a call knows under a cap that stays: it has evicted at most one connection, and then
there is room. -/
def Room (s : Server) (c : ℕ) : Admitting → Prop
  | .start => True
  | .measure cap | .judge cap | .lock cap => cap = c
  | .loop cap victims | .measureAgain cap victims =>
      cap = c ∧ victims.length ≤ 1 ∧ (victims ≠ [] → s.roster.length < c)
  | .find cap victims _ | .remove cap victims _ => cap = c ∧ victims = []
  | .serve cap victims => cap = c ∧ victims.length ≤ 1

/-- The state of a server whose cap stays. -/
structure Steady (c : ℕ) (s : Server) : Prop where
  cap : s.maxConnections = c
  bounded : s.roster.length ≤ c
  handled : ∀ h ∈ s.handled, h.victims.length ≤ 1 ∧ (h.victims ≠ [] → h.outcome = .served)
  room : ∀ arrival call, s.current = some (arrival, call) → Room s c call

variable {c : ℕ}

/-- A new server is steady. -/
theorem steady_new (c : ℕ) : Steady c (new c) where
  cap := rfl
  bounded := Nat.zero_le c
  handled h hmem := by cases hmem
  room _ _ hcurrent := by cases hcurrent

/-- A steady server stays so as a call moves on. -/
theorem Steady.goto (h : Steady c s) (hroom : Room s c call) :
    Steady c { s with current := some (arrival, call) } where
  cap := h.cap
  bounded := h.bounded
  handled := h.handled
  room arrival' call' hcurrent := by
    cases hcurrent
    cases call <;> exact hroom

/-- A steady server stays so when a call has ended. -/
theorem Steady.finish (h : Steady c s) {outcome : Outcome} (hle : victims.length ≤ 1)
    (hserved : victims ≠ [] → outcome = .served) :
    Steady c (s.finish arrival victims outcome) where
  cap := h.cap
  bounded := h.bounded
  handled record hmem := by
    rcases List.mem_append.mp hmem with hmem | hmem
    · exact h.handled record hmem
    · obtain rfl := List.mem_singleton.mp hmem
      exact ⟨hle, hserved⟩
  room _ _ hcurrent := by cases hcurrent

/-- **The accept loop keeps a steady cap**: an eviction makes room for the newcomer it is made
for. -/
theorem Steady.admitArrival (h : Steady c s) (hpos : 0 < c) (hknows : Knows s arrival call)
    (hroom : Room s c call) : Steady c (s.admitArrival arrival call) := by
  cases call with
  | start =>
      rw [Server.admitArrival]
      split_ifs with hzero
      · rw [h.cap] at hzero
        omega
      · exact h.goto h.cap
  | measure cap =>
      rw [Server.admitArrival]
      split_ifs
      · exact h.goto ⟨hroom, Nat.zero_le 1⟩
      · exact h.goto hroom
  | judge cap =>
      rw [Server.admitArrival]
      split_ifs
      · exact h.goto hroom
      · exact h.finish (Nat.zero_le 1) fun hne => absurd rfl hne
      · exact h.finish (Nat.zero_le 1) fun hne => absurd rfl hne
  | lock cap => exact h.goto ⟨hroom, Nat.zero_le 1, fun hne => absurd rfl hne⟩
  | loop cap victims =>
      obtain ⟨rfl, hle, hlt⟩ := hroom
      rw [Server.admitArrival]
      split_ifs with hcap
      · refine h.goto ⟨rfl, ?_⟩
        by_contra hne
        exact absurd hcap (Nat.not_le.mpr (hlt hne))
      · exact h.goto ⟨rfl, hle, hlt⟩
  | find cap victims rest =>
      obtain ⟨rfl, rfl⟩ := hroom
      cases rest with
      | nil => exact h.goto ⟨rfl, Nat.zero_le 1, fun hne => absurd rfl hne⟩
      | cons connection rest =>
          rw [Server.admitArrival]
          split_ifs
          · exact h.goto ⟨rfl, rfl⟩
          · exact h.goto ⟨rfl, rfl⟩
  | remove cap victims victim =>
      obtain ⟨rfl, rfl⟩ := hroom
      have hlength := List.length_erase_of_mem hknows.2.2.2
      have hbounded := h.bounded
      refine ⟨h.cap, ?_, h.handled, fun arrival' call' hcurrent => ?_⟩
      · simp only [Server.admitArrival]
        omega
      · cases hcurrent
        refine ⟨rfl, Nat.le_refl 1, fun _ => ?_⟩
        simp only [Server.admitArrival]
        omega
  | measureAgain cap victims =>
      obtain ⟨rfl, hle, hlt⟩ := hroom
      rw [Server.admitArrival]
      split_ifs with hcap
      · exact h.finish hle fun hne => absurd hcap (Nat.not_le.mpr (hlt hne))
      · exact h.goto ⟨rfl, hle⟩
  | serve cap victims =>
      obtain ⟨rfl, hle⟩ := hroom
      have hfinish : Steady cap (s.finish arrival victims .served) := h.finish hle fun _ => rfl
      refine ⟨h.cap, ?_, hfinish.handled, fun _ _ hcurrent => by cases hcurrent⟩
      have hlt := hknows.1 (Nat.ne_of_gt hpos)
      rw [Server.admitArrival, List.length_append, List.length_singleton]
      exact hlt

/-- A call that has room has it in a smaller roster too. -/
theorem Room.mono {s' : Server} (h : Room s c call) (hle : s'.roster.length ≤ s.roster.length) :
    Room s' c call := by
  cases call with
  | loop cap victims | measureAgain cap victims =>
      exact ⟨h.1, h.2.1, fun hne => Nat.lt_of_le_of_lt hle (h.2.2 hne)⟩
  | start | measure | judge | lock | find | remove | serve => exact h

/-- **Step lemma**: a server whose cap does not change stays steady. -/
theorem Steady.step (h : Steady c s) (hpos : 0 < c) (hinv : Inv s) {event : Event}
    (hevent : ∀ cap, event = .reload cap → cap = c) : Steady c (s.step event) := by
  cases event with
  | arrive arrival =>
      rw [Server.step]
      split
      · exact h.goto trivial
      · exact h
  | advance =>
      rw [Server.step]
      split
      · exact h
      · rename_i arrival call hcurrent
        exact h.admitArrival hpos (hinv arrival call hcurrent) (h.room arrival call hcurrent)
  | mark connection =>
      exact ⟨h.cap, h.bounded, h.handled, fun arrival call hcurrent =>
        (h.room arrival call hcurrent).mono (Nat.le_refl _)⟩
  | ended connection =>
      rw [Server.step]
      split_ifs
      · exact h
      · exact ⟨h.cap, Nat.le_trans List.length_erase_le h.bounded, h.handled,
          fun arrival call hcurrent => (h.room arrival call hcurrent).mono List.length_erase_le⟩
  | reload cap =>
      exact ⟨hevent cap rfl, h.bounded, h.handled, fun arrival call hcurrent =>
        (h.room arrival call hcurrent).mono (Nat.le_refl _)⟩

/-- **Run lemma**: a server whose cap never changes is steady at every moment. -/
theorem steady_run (hpos : 0 < c) (events : List Event)
    (hcap : ∀ cap, .reload cap ∈ events → cap = c) : Steady c ((new c).run events) := by
  induction events using List.reverseRecOn with
  | nil => exact steady_new c
  | append_singleton events event ih =>
      rw [run_concat]
      refine (ih fun cap hmem => hcap cap (List.mem_append_left _ hmem)).step hpos
        (inv_run c events) fun cap heq => ?_
      exact hcap cap (List.mem_append_right _ (heq ▸ List.mem_cons_self))

/-- A call with room evicts at most one connection. -/
theorem Room.length_victims_le (h : Room s c call) : call.victims.length ≤ 1 := by
  cases call with
  | loop cap victims | measureAgain cap victims => exact h.2.1
  | find cap victims rest | remove cap victims victim =>
      obtain ⟨-, rfl⟩ := h
      exact Nat.zero_le 1
  | serve cap victims => exact h.2
  | start | measure | judge | lock => exact Nat.zero_le 1

end Server

open Server

/-- A connection whose gate opens after it was read and before its slot is removed is evicted
though it has authenticated. -/
theorem authenticated_connection_evicted :
    ¬∀ (events : List Event) (connection : ℕ),
      ((new 1).run events).isOpen connection = true →
      ¬((new 1).run events).Evicts connection := by
  intro h
  -- one connection is served; the next arrival reads its gate, and then it authenticates
  refine h [.arrive ⟨true, false, false⟩, .advance, .advance, .advance,
    .arrive ⟨true, false, false⟩, .advance, .advance, .advance, .advance, .advance, .advance,
    .mark 0] 0 rfl ⟨?_, ?_⟩
  · decide
  · decide

/-- **Admission at the connection cap is safe under any load**, in every interleaving of arrivals
with connections that authenticate and end and with reloads of the cap.

* An arrival that is served under a positive cap leaves the roster within it.
* An arrival whose address is not validated evicts nobody, and unless it is served none of its
  steps changes the roster.
* A validated arrival is refused only if at a moment of its call so many connections were live
  and every one of them had authenticated.
* A connection is evicted only if its gate was closed when the accept loop read it, just before.
* Under a positive cap that stays, the roster never exceeds it, each arrival evicts at most one
  connection, and one that evicted a connection is served. -/
theorem admission_safe (maxConnections : ℕ) (events : List Event) :
    let initial := new maxConnections
    let s := initial.run events
    (∀ arrival cap victims, s.current = some (arrival, .serve cap victims) → cap ≠ 0 →
      (s.step .advance).roster.length ≤ cap) ∧
    (∀ arrival call, s.current = some (arrival, call) → arrival.validated = false →
      (∀ connection, ¬s.Evicts connection) ∧
      ((∀ cap victims, call ≠ .serve cap victims) → (s.step .advance).roster = s.roster)) ∧
    (∀ arrival victims, arrival.validated = true →
      (s.step .advance).handled = s.handled ++ [⟨arrival, victims, .refused⟩] →
      ∃ cap, s.current = some (arrival, .measureAgain cap victims) ∧ 0 < cap ∧
        ∃ front, Moment initial events front arrival ∧ Full (initial.run front) cap) ∧
    (∀ connection, s.Evicts connection →
      ∃ front beside, events = front ++ .advance :: beside ∧ .advance ∉ beside ∧
        (∃ arrival cap victims rest, (initial.run front).current =
          some (arrival, .find cap victims (connection :: rest))) ∧
        (initial.run front).isOpen connection = false) ∧
    (0 < maxConnections → (∀ cap, .reload cap ∈ events → cap = maxConnections) →
      s.roster.length ≤ maxConnections ∧
      (∀ arrival call, s.current = some (arrival, call) → call.victims.length ≤ 1) ∧
      ∀ record ∈ s.handled, record.victims.length ≤ 1 ∧
        (record.victims ≠ [] → record.outcome = .served)) := by
  intro initial s
  have hinv : Inv s := inv_run maxConnections events
  refine ⟨?_, ?_, ?_, ?_, ?_⟩
  · intro arrival cap victims hcurrent hcap
    have hlt := (hinv _ _ hcurrent).1 hcap
    simp only [step, hcurrent, admitArrival, List.length_append, List.length_singleton]
    exact hlt
  · intro arrival call hcurrent hvalidated
    exact ⟨hinv.not_evicts hcurrent hvalidated, hinv.roster_unvalidated hcurrent hvalidated⟩
  · intro arrival victims hvalidated hrefused
    obtain ⟨cap, hcurrent, hfull⟩ := measureAgain_of_refused hvalidated hrefused
    exact ⟨cap, hcurrent, (hinv _ _ hcurrent).1,
      full_of_measureAgain maxConnections hcurrent hfull⟩
  · intro connection hevicts
    obtain ⟨arrival, cap, victims, hcurrent⟩ := hevicts.remove
    obtain ⟨front, beside, hevents, hbeside, ⟨rest, hfind⟩, hclosed⟩ :=
      read_closed_of_remove maxConnections hcurrent
    exact ⟨front, beside, hevents, hbeside, ⟨arrival, cap, victims, rest, hfind⟩, hclosed⟩
  · intro hpos hcap
    have hsteady := steady_run hpos events hcap
    exact ⟨hsteady.bounded, fun arrival call hcurrent =>
      (hsteady.room arrival call hcurrent).length_victims_le, hsteady.handled⟩

end Admission

end Volto
