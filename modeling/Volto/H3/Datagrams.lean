import Mathlib.Algebra.Order.Ring.Nat
import Mathlib.Data.List.Basic
import Volto.Lib.History
import Volto.Lib.Slots
import Volto.Logfmt

/-!
# Datagram Routing

The routing of inbound HTTP Datagrams in `h3/connection.rs`: `register_datagrams` claims a
Quarter Stream ID for a session, `deliver` hands a decoded datagram to the session that claims
its ID, and dropping a `DatagramReceiver` takes the claim out of the table again. The table is
behind a mutex and the drop counter is atomic, so the steps that interleave are: the locked
part of each function, and the counting of a drop, which `deliver` does after it has let go of
the table. `deliver` is therefore the step that looks up and enqueues, and `countDrop` the step
that finishes a call which is to be counted as a drop.

The queue of a session is a bounded channel of the runtime, modelled as a list: `try_send`
appends to it unless it is full, `recv` takes its head. The calls of `deliver` are numbered,
and every payload carries the number of the call that delivered it, so that the order and the
moment of a delivery can be spoken about.

## Main results

* `Inv.step`: what every step preserves.
* `datagram_routing`: routing safety after any interleaving.
-/

namespace Volto

/-- A decoded HTTP datagram. -/
structure Datagram where
  /-- Request stream id divided by four. -/
  quarterStreamId : ℕ
  /-- Payload interpretation; 0 is a raw UDP payload. -/
  contextId : ℕ
  /-- Everything after the two varints. -/
  payload : List UInt8
deriving DecidableEq, Repr

/-- The Context ID of a raw UDP payload. -/
def contextIdUdpPayload : ℕ := 0

/-- Inbound datagrams buffered per session before packets start being dropped. -/
def inboundQueueDepth : ℕ := 64

/-- Which way an inbound HTTP datagram was dropped. The last is a datagram that could not be
decoded and is never handed to `deliver`. -/
inductive DropKind
  | unknownContext
  | unroutable
  | queueFull
  | malformed
deriving DecidableEq, Repr

namespace Datagrams

/-- A payload in a session's queue, with the number of the call that put it there. -/
structure Delivery where
  call : ℕ
  payload : List UInt8
deriving DecidableEq, Repr

/-- One session's receiver: its claim, its queue, what it has received, and between which
calls of `deliver` it held the claim. -/
structure Receiver where
  quarterStreamId : ℕ
  queue : List Delivery
  received : List Delivery
  /-- How many calls had been made when it registered. -/
  since : ℕ
  /-- How many calls had been made when it was dropped, if it was. -/
  closed : Option ℕ
deriving DecidableEq, Repr

/-- Whether the receiver has not been dropped. -/
def Receiver.live (r : Receiver) : Bool :=
  r.closed.isNone

/-- What the receiver has been given, in order. -/
def Receiver.given (r : Receiver) : List Delivery :=
  r.received ++ r.queue

/-- A connection's routing table, the receivers it ever handed out, and its counters. The
sending half of a receiver's channel is the receiver's index. -/
structure Shared where
  sessions : ℕ → Option ℕ
  receivers : List Receiver
  droppedDatagrams : UInt64
  samplers : DropKind → Sampler
  /-- Calls of `deliver` that have let go of the table and are still to count their drop. -/
  pending : List DropKind
  /-- The datagrams `deliver` was called with, in order. -/
  calls : List Datagram
  /-- How many payloads were enqueued. -/
  enqueued : ℕ

namespace Shared

/-- A connection without sessions, whose drop counter was handed in. -/
def start (droppedDatagrams : UInt64) : Shared where
  sessions := fun _ => none
  receivers := []
  droppedDatagrams := droppedDatagrams
  samplers := fun _ => Sampler.new
  pending := []
  calls := []
  enqueued := 0

/-- Claims `quarterStreamId` for a session, or reports that it is taken. -/
def registerDatagrams (s : Shared) (quarterStreamId : ℕ) : Option ℕ × Shared :=
  match s.sessions quarterStreamId with
  | some _ => (none, s)
  | none =>
      (some s.receivers.length,
        { s with
          sessions := Function.update s.sessions quarterStreamId (some s.receivers.length)
          receivers := s.receivers ++ [⟨quarterStreamId, [], [], s.calls.length, none⟩] })

/-- Puts a payload into a receiver's channel, unless it is full or closed. -/
def trySend (s : Shared) (i : ℕ) (delivery : Delivery) : Option (List Receiver) :=
  match s.receivers[i]? with
  | none => none
  | some r =>
      if r.live ∧ r.queue.length < inboundQueueDepth then
        some (s.receivers.set i { r with queue := r.queue ++ [delivery] })
      else
        none

/-- Hands one decoded datagram to the session that claimed its Quarter Stream ID, or leaves
its drop to be counted. -/
def deliver (s : Shared) (decoded : Datagram) : Shared :=
  let s' := { s with calls := s.calls ++ [decoded] }
  if decoded.contextId ≠ contextIdUdpPayload then
    { s' with pending := s.pending ++ [.unknownContext] }
  else
    match s.sessions decoded.quarterStreamId with
    | none => { s' with pending := s.pending ++ [.unroutable] }
    | some i =>
        match s.trySend i ⟨s.calls.length, decoded.payload⟩ with
        | some receivers => { s' with receivers := receivers, enqueued := s.enqueued + 1 }
        | none => { s' with pending := s.pending ++ [.queueFull] }

/-- Counts one dropped datagram: the sampler of its kind, then the connection's counter. -/
def countDrop (s : Shared) (k : ℕ) : Shared :=
  match s.pending[k]? with
  | none => s
  | some kind =>
      { s with
        pending := s.pending.eraseIdx k
        samplers := Function.update s.samplers kind (s.samplers kind).record.2
        droppedDatagrams := s.droppedDatagrams + 1 }

/-- Takes the next payload routed to a session, if one is there. -/
def recv (s : Shared) (i : ℕ) : Option (List UInt8) × Shared :=
  match s.receivers[i]? with
  | none => (none, s)
  | some r =>
      match r.live, r.queue with
      | true, delivery :: queue =>
          (some delivery.payload,
            { s with
              receivers := s.receivers.set i
                { r with queue := queue, received := r.received ++ [delivery] } })
      | _, _ => (none, s)

/-- Drops a receiver: the claim leaves the table, and the queue goes with the receiver. -/
def drop (s : Shared) (i : ℕ) : Shared :=
  match s.receivers[i]? with
  | none => s
  | some r =>
      if r.live then
        { s with
          sessions := Function.update s.sessions r.quarterStreamId none
          receivers := s.receivers.set i { r with queue := [], closed := some s.calls.length } }
      else
        s

/-- What the parties of a connection can do next. -/
inductive Action
  | register (quarterStreamId : ℕ)
  | deliver (decoded : Datagram)
  | countDrop (k : ℕ)
  | recv (i : ℕ)
  | drop (i : ℕ)

/-- One step. -/
def step (s : Shared) : Action → Shared
  | .register quarterStreamId => (s.registerDatagrams quarterStreamId).2
  | .deliver decoded => s.deliver decoded
  | .countDrop k => s.countDrop k
  | .recv i => (s.recv i).2
  | .drop i => s.drop i

/-- The connection after a run of steps. -/
def run (droppedDatagrams : UInt64) (actions : List Action) : Shared :=
  actions.foldl step (start droppedDatagrams)

/-- The datagram that an action hands to `deliver`, if it is a call of it. -/
def Action.decoded? : Action → Option Datagram
  | .deliver decoded => some decoded
  | _ => none

/-- The payload that an action has `recv` return to the receiver `i`, if any. -/
def returned? (s : Shared) (i : ℕ) : Action → Option (List UInt8)
  | .recv j => if j = i then (s.recv i).1 else none
  | _ => none

/-! ### The invariant -/

/-- A receiver that was handed out, has not been dropped, and claims `quarterStreamId`. -/
def Claims (s : Shared) (i quarterStreamId : ℕ) : Prop :=
  ∃ r, s.receivers[i]? = some r ∧ r.live = true ∧ r.quarterStreamId = quarterStreamId

end Shared

/-- What holds of one receiver. Its queue is bounded; what it was given is in the order of
delivery, each from a call with its own Quarter Stream ID and Context ID 0, made while it held
the claim. -/
structure Receiver.Sound (calls : List Datagram) (r : Receiver) : Prop where
  depth : r.queue.length ≤ inboundQueueDepth
  order : r.given.Pairwise fun d d' => d.call < d'.call
  own : ∀ d ∈ r.given, ∃ decoded, calls[d.call]? = some decoded ∧
    decoded.quarterStreamId = r.quarterStreamId ∧
    decoded.contextId = contextIdUdpPayload ∧ decoded.payload = d.payload
  during : ∀ d ∈ r.given, r.since ≤ d.call ∧ ∀ c, r.closed = some c → d.call < c
  since_le : r.since ≤ calls.length

/-- What was given was delivered by a call that was made. -/
theorem Receiver.Sound.call_lt {calls : List Datagram} {r : Receiver} (h : r.Sound calls)
    {d : Delivery} (hd : d ∈ r.given) : d.call < calls.length := by
  obtain ⟨decoded, hget, -⟩ := h.own d hd
  exact (List.getElem?_eq_some_iff.mp hget).1

/-- A further call takes nothing back. -/
theorem Receiver.Sound.mono {calls : List Datagram} {r : Receiver} (h : r.Sound calls)
    (decoded : Datagram) : r.Sound (calls ++ [decoded]) where
  depth := h.depth
  order := h.order
  own := by
    intro d hd
    obtain ⟨decoded', hget, hrest⟩ := h.own d hd
    refine ⟨decoded', ?_, hrest⟩
    rw [List.getElem?_append_left (h.call_lt hd), hget]
  during := h.during
  since_le := by
    have := h.since_le
    rw [List.length_append]
    omega

/-- A live receiver with room is given the payload of the call just made. -/
theorem Receiver.Sound.enqueue {calls : List Datagram} {r : Receiver} (h : r.Sound calls)
    (hlive : r.live = true) (hroom : r.queue.length < inboundQueueDepth) {decoded : Datagram}
    (hid : decoded.quarterStreamId = r.quarterStreamId)
    (hcontext : decoded.contextId = contextIdUdpPayload) :
    Receiver.Sound (calls ++ [decoded])
      { r with queue := r.queue ++ [⟨calls.length, decoded.payload⟩] } := by
  have hmono := h.mono decoded
  have hgiven : Receiver.given { r with queue := r.queue ++ [⟨calls.length, decoded.payload⟩] } =
      r.given ++ [⟨calls.length, decoded.payload⟩] := by
    simp [given]
  refine ⟨?_, ?_, ?_, ?_, hmono.since_le⟩
  · rw [List.length_append]
    exact hroom
  · rw [hgiven, List.pairwise_append]
    refine ⟨h.order, by simp, ?_⟩
    intro d hd d' hd'
    cases List.mem_singleton.mp hd'
    exact h.call_lt hd
  · intro d hd
    rw [hgiven, List.mem_append, List.mem_singleton] at hd
    rcases hd with hd | rfl
    · exact hmono.own d hd
    · exact ⟨decoded, by simp, hid, hcontext, rfl⟩
  · intro d hd
    rw [hgiven, List.mem_append, List.mem_singleton] at hd
    rcases hd with hd | rfl
    · exact h.during d hd
    · refine ⟨h.since_le, ?_⟩
      intro c hc
      simp [live, show r.closed = some c from hc] at hlive

/-- A receiver that holds less of what it was given, with a shorter queue. -/
theorem Receiver.Sound.of_sublist {calls : List Datagram} {r r' : Receiver} (h : r.Sound calls)
    (hgiven : r'.given.Sublist r.given) (hqueue : r'.queue.length ≤ r.queue.length)
    (hid : r'.quarterStreamId = r.quarterStreamId) (hsince : r'.since = r.since)
    (hclosed : ∀ c, r'.closed = some c → r.closed = some c ∨ c = calls.length) :
    r'.Sound calls where
  depth := Nat.le_trans hqueue h.depth
  order := h.order.sublist hgiven
  own := by
    intro d hd
    rw [hid]
    exact h.own d (hgiven.subset hd)
  during := by
    intro d hd
    have hd' := hgiven.subset hd
    refine ⟨hsince ▸ (h.during d hd').1, ?_⟩
    intro c hc
    rcases hclosed c hc with hc | rfl
    · exact (h.during d hd').2 c hc
    · exact h.call_lt hd'
  since_le := hsince ▸ h.since_le

namespace Shared

/-- **The routing invariant.** The table holds exactly the claims of live receivers, every
receiver is sound, no call was delivered twice, and every call is accounted for. -/
structure Inv (initial : UInt64) (s : Shared) : Prop where
  table : ∀ q i, s.sessions q = some i ↔ s.Claims i q
  sound : ∀ (i : ℕ) (r : Receiver), s.receivers[i]? = some r → r.Sound s.calls
  once : ∀ (i j : ℕ) (r r' : Receiver), s.receivers[i]? = some r →
    s.receivers[j]? = some r' → i ≠ j → ∀ d ∈ r.given, ∀ d' ∈ r'.given, d.call ≠ d'.call
  count : ∃ drops, s.calls.length = s.enqueued + drops + s.pending.length ∧
    s.droppedDatagrams = initial + UInt64.ofNat drops

/-- A connection without sessions. -/
theorem inv_start (initial : UInt64) : Inv initial (start initial) where
  table := by simp [start, Claims]
  sound := by simp [start]
  once := by simp [start]
  count := ⟨0, rfl, by simp [start]⟩

/-- A receiver that keeps its claim keeps the table exact. -/
theorem claims_set {s s' : Shared} {i : ℕ} {r : Receiver} (r' : Receiver)
    (hi : s.receivers[i]? = some r)
    (hs' : s'.receivers = s.receivers.set i r') (hlive : r'.live = r.live)
    (hid : r'.quarterStreamId = r.quarterStreamId) (j q : ℕ) :
    s'.Claims j q ↔ s.Claims j q := by
  rw [Claims]
  simp only [hs', Slots.getElem?_set hi]
  constructor
  · rintro ⟨r'', ⟨rfl, rfl⟩ | ⟨-, hj⟩, hl, hq⟩
    · exact ⟨r, hi, hlive ▸ hl, hid ▸ hq⟩
    · exact ⟨r'', hj, hl, hq⟩
  · rintro ⟨r'', hj, hl, hq⟩
    by_cases hji : j = i
    · subst hji
      cases hi.symm.trans hj
      exact ⟨r', Or.inl ⟨rfl, rfl⟩, hlive ▸ hl, hid ▸ hq⟩
    · exact ⟨r'', Or.inr ⟨hji, hj⟩, hl, hq⟩

/-- An empty receiver is sound. -/
theorem sound_registered (calls : List Datagram) (q : ℕ) :
    Receiver.Sound calls ⟨q, [], [], calls.length, none⟩ :=
  ⟨Nat.zero_le _, by simp [Receiver.given], by simp [Receiver.given], by simp [Receiver.given],
    Nat.le_refl _⟩

/-- A live receiver that was added brings its claim. -/
theorem claims_concat {s s' : Shared} {r : Receiver} (hs' : s'.receivers = s.receivers ++ [r])
    (hlive : r.live = true) (i q : ℕ) :
    s'.Claims i q ↔ s.Claims i q ∨ (i = s.receivers.length ∧ q = r.quarterStreamId) := by
  rw [Claims]
  simp only [hs', Slots.getElem?_concat]
  constructor
  · rintro ⟨r', hr' | ⟨rfl, rfl⟩, hl, hid⟩
    · exact Or.inl ⟨r', hr', hl, hid⟩
    · exact Or.inr ⟨rfl, hid.symm⟩
  · rintro (⟨r', hr', hl, hid⟩ | ⟨rfl, rfl⟩)
    · exact ⟨r', Or.inl hr', hl, hid⟩
    · exact ⟨r, Or.inr ⟨rfl, rfl⟩, hlive, rfl⟩

/-- A receiver that is no longer live takes its claim with it. -/
theorem claims_close {s s' : Shared} {i : ℕ} {r : Receiver} (r' : Receiver)
    (hi : s.receivers[i]? = some r) (hs' : s'.receivers = s.receivers.set i r')
    (hlive : r'.live = false) (j q : ℕ) : s'.Claims j q ↔ j ≠ i ∧ s.Claims j q := by
  rw [Claims]
  simp only [hs', Slots.getElem?_set hi]
  constructor
  · rintro ⟨r'', ⟨rfl, rfl⟩ | ⟨hj, hr''⟩, hl, hid⟩
    · rw [hlive] at hl
      cases hl
    · exact ⟨hj, r'', hr'', hl, hid⟩
  · rintro ⟨hj, r'', hr'', hl, hid⟩
    exact ⟨r'', Or.inr ⟨hj, hr''⟩, hl, hid⟩

/-- A claim is taken. -/
theorem Inv.register {initial : UInt64} {s : Shared} (h : Inv initial s) (q : ℕ) :
    Inv initial (s.registerDatagrams q).2 := by
  rw [registerDatagrams]
  cases hq : s.sessions q with
  | some i => exact h
  | none =>
      have hfree : ∀ i, ¬s.Claims i q := by
        intro i hclaims
        rw [← h.table, hq] at hclaims
        cases hclaims
      refine ⟨?_, ?_, ?_, h.count⟩
      · intro q' i
        rw [claims_concat rfl rfl]
        by_cases hq' : q' = q
        · subst hq'
          simp [hfree i, eq_comm]
        · simp only [Function.update_of_ne hq', h.table, hq', and_false, or_false]
      · intro i r hr
        rcases Slots.getElem?_concat.mp hr with hr | ⟨rfl, rfl⟩
        · exact h.sound i r hr
        · exact sound_registered s.calls q
      · intro i j r r' hr hr' hij d hd d' hd'
        rcases Slots.getElem?_concat.mp hr with hr | ⟨rfl, rfl⟩
        · rcases Slots.getElem?_concat.mp hr' with hr' | ⟨rfl, rfl⟩
          · exact h.once i j r r' hr hr' hij d hd d' hd'
          · cases hd'
        · cases hd

/-- A call that enqueues nothing leaves a drop to be counted. -/
theorem Inv.leave {initial : UInt64} {s : Shared} (h : Inv initial s) (decoded : Datagram)
    (kind : DropKind) :
    Inv initial
      { s with calls := s.calls ++ [decoded], pending := s.pending ++ [kind] } where
  table := h.table
  sound := by
    intro i r hr
    exact (h.sound i r hr).mono decoded
  once := h.once
  count := by
    obtain ⟨drops, hcalls, hdropped⟩ := h.count
    refine ⟨drops, ?_, hdropped⟩
    simp only [List.length_append, List.length_singleton]
    omega

/-- A receiver may be replaced by one that has been given nothing that others have. -/
theorem Inv.once_set {initial : UInt64} {s : Shared} (h : Inv initial s) {i : ℕ}
    {r r' : Receiver} (hi : s.receivers[i]? = some r)
    (hgiven : ∀ d ∈ r'.given, d ∈ r.given ∨
      ∀ (j : ℕ) (r'' : Receiver), s.receivers[j]? = some r'' →
        ∀ d' ∈ r''.given, d'.call ≠ d.call)
    (j k : ℕ) (r₁ r₂ : Receiver) (hr₁ : (s.receivers.set i r')[j]? = some r₁)
    (hr₂ : (s.receivers.set i r')[k]? = some r₂) (hjk : j ≠ k) :
    ∀ d ∈ r₁.given, ∀ d' ∈ r₂.given, d.call ≠ d'.call := by
  intro d hd d' hd'
  rcases (Slots.getElem?_set hi).mp hr₁ with ⟨rfl, rfl⟩ | ⟨-, hold₁⟩
  · rcases (Slots.getElem?_set hi).mp hr₂ with ⟨rfl, rfl⟩ | ⟨-, hold₂⟩
    · exact absurd rfl hjk
    · rcases hgiven d hd with hd | hfresh
      · exact h.once j k r r₂ hi hold₂ hjk d hd d' hd'
      · exact (hfresh k r₂ hold₂ d' hd').symm
  · rcases (Slots.getElem?_set hi).mp hr₂ with ⟨rfl, rfl⟩ | ⟨-, hold₂⟩
    · rcases hgiven d' hd' with hd' | hfresh
      · exact h.once j k r₁ r hold₁ hi hjk d hd d' hd'
      · exact hfresh j r₁ hold₁ d hd
    · exact h.once j k r₁ r₂ hold₁ hold₂ hjk d hd d' hd'

/-- A receiver was replaced by one that has been given no more than before. -/
theorem Inv.replace {initial : UInt64} {s : Shared} (h : Inv initial s) {i : ℕ}
    {r : Receiver} (r' : Receiver) (hi : s.receivers[i]? = some r) (hsound : r'.Sound s.calls)
    (hgiven : r'.given ⊆ r.given) {sessions : ℕ → Option ℕ}
    (htable : ∀ q j, sessions q = some j ↔
      Claims { s with sessions := sessions, receivers := s.receivers.set i r' } j q) :
    Inv initial { s with sessions := sessions, receivers := s.receivers.set i r' } where
  table := htable
  sound := by
    intro j r'' hr''
    rcases (Slots.getElem?_set hi).mp hr'' with ⟨rfl, rfl⟩ | ⟨-, hr''⟩
    · exact hsound
    · exact h.sound j r'' hr''
  once := h.once_set hi fun _ hd => Or.inl (hgiven hd)
  count := h.count

/-- A payload is taken: the receiver has been given the same as before. -/
theorem Inv.recv {initial : UInt64} {s : Shared} (h : Inv initial s) (i : ℕ) :
    Inv initial (s.recv i).2 := by
  rw [Shared.recv]
  cases hi : s.receivers[i]? with
  | none => exact h
  | some r =>
      simp only
      split
      · rename_i delivery queue hlive hqueue
        have hgiven : Receiver.given { r with
            queue := queue, received := r.received ++ [delivery] } = r.given := by
          simp [Receiver.given, hqueue]
        have hsub : (Receiver.given { r with
            queue := queue, received := r.received ++ [delivery] }).Sublist r.given := by
          rw [hgiven]
        refine h.replace { r with
          queue := queue, received := r.received ++ [delivery] } hi ?_ hsub.subset ?_
        · refine (h.sound i r hi).of_sublist hsub ?_ rfl rfl (fun c hc => Or.inl hc)
          rw [hqueue]
          simp
        · intro q j
          rw [h.table]
          exact (claims_set { r with
            queue := queue, received := r.received ++ [delivery] } hi rfl rfl rfl j q).symm
      · exact h

/-- A receiver is dropped: its claim leaves the table. -/
theorem Inv.drop {initial : UInt64} {s : Shared} (h : Inv initial s) (i : ℕ) :
    Inv initial (s.drop i) := by
  rw [Shared.drop]
  cases hi : s.receivers[i]? with
  | none => exact h
  | some r =>
      simp only
      split_ifs with hlive
      · have hsub : (Receiver.given { r with
            queue := [], closed := some s.calls.length }).Sublist r.given := by
          simp [Receiver.given]
        refine h.replace { r with queue := [], closed := some s.calls.length } hi ?_
          hsub.subset ?_
        · refine (h.sound i r hi).of_sublist hsub (by simp) rfl rfl ?_
          intro c hc
          exact Or.inr (Option.some.inj hc).symm
        · intro q j
          have hold : s.Claims i r.quarterStreamId := ⟨r, hi, hlive, rfl⟩
          rw [claims_close _ hi rfl rfl]
          by_cases hq : q = r.quarterStreamId
          · subst hq
            rw [Function.update_self]
            refine iff_of_false nofun ?_
            rintro ⟨hj, hother⟩
            rw [← h.table] at hold hother
            exact hj (Option.some.inj (hother.symm.trans hold))
          · rw [Function.update_of_ne hq, h.table]
            refine ⟨fun hclaims => ⟨?_, hclaims⟩, And.right⟩
            rintro rfl
            obtain ⟨r', hr', -, hid⟩ := hclaims
            cases hi.symm.trans hr'
            exact hq hid.symm
      · exact h

/-- What a successful `try_send` found and did. -/
theorem trySend_eq_some {s : Shared} {i : ℕ} {delivery : Delivery} {receivers : List Receiver}
    (h : s.trySend i delivery = some receivers) :
    ∃ r, s.receivers[i]? = some r ∧ r.live = true ∧ r.queue.length < inboundQueueDepth ∧
      receivers = s.receivers.set i { r with queue := r.queue ++ [delivery] } := by
  rw [trySend] at h
  cases hi : s.receivers[i]? with
  | none => simp [hi] at h
  | some r =>
      simp only [hi] at h
      split_ifs at h with hcond
      exact ⟨r, rfl, hcond.1, hcond.2, (Option.some.inj h).symm⟩

/-- A payload is enqueued with the session that claims its ID. -/
theorem Inv.enqueue {initial : UInt64} {s : Shared} (h : Inv initial s) {decoded : Datagram}
    (hcontext : decoded.contextId = contextIdUdpPayload) {i : ℕ}
    (hsession : s.sessions decoded.quarterStreamId = some i) {receivers : List Receiver}
    (hsend : s.trySend i ⟨s.calls.length, decoded.payload⟩ = some receivers) :
    Inv initial
      { s with
        calls := s.calls ++ [decoded]
        receivers := receivers
        enqueued := s.enqueued + 1 } := by
  obtain ⟨r, hi, hlive, hroom, rfl⟩ := trySend_eq_some hsend
  have hid : decoded.quarterStreamId = r.quarterStreamId := by
    obtain ⟨r', hr', -, hid⟩ := (h.table _ _).mp hsession
    cases hi.symm.trans hr'
    exact hid.symm
  refine ⟨?_, ?_, ?_, ?_⟩
  · intro q j
    rw [h.table]
    exact (claims_set { r with
      queue := r.queue ++ [⟨s.calls.length, decoded.payload⟩] } hi rfl rfl rfl j q).symm
  · intro j r' hr'
    rcases (Slots.getElem?_set hi).mp hr' with ⟨rfl, rfl⟩ | ⟨-, hold⟩
    · exact (h.sound j r hi).enqueue hlive hroom hid hcontext
    · exact (h.sound j r' hold).mono decoded
  · refine h.once_set hi fun d hd => ?_
    simp only [Receiver.given, List.mem_append, List.mem_singleton] at hd
    rcases hd with hd | hd | rfl
    · exact Or.inl (List.mem_append_left _ hd)
    · exact Or.inl (List.mem_append_right _ hd)
    · -- the number of this call is new: every payload given before came from an earlier one
      refine Or.inr fun j r' hr' d' hd' => ?_
      exact Nat.ne_of_lt ((h.sound j r' hr').call_lt hd')
  · obtain ⟨drops, hcalls, hdropped⟩ := h.count
    refine ⟨drops, ?_, hdropped⟩
    simp only [List.length_append, List.length_singleton]
    omega

/-- A call of `deliver` enqueues its payload or leaves a drop to be counted. -/
theorem Inv.deliver {initial : UInt64} {s : Shared} (h : Inv initial s) (decoded : Datagram) :
    Inv initial (s.deliver decoded) := by
  rw [Shared.deliver]
  by_cases hcontext : decoded.contextId = contextIdUdpPayload
  · simp only [hcontext, ne_eq, not_true_eq_false, if_false]
    cases hsession : s.sessions decoded.quarterStreamId with
    | none => exact h.leave decoded .unroutable
    | some i =>
        cases hsend : s.trySend i ⟨s.calls.length, decoded.payload⟩ with
        | none =>
            simp only [hsend]
            exact h.leave decoded .queueFull
        | some receivers =>
            simp only [hsend]
            exact h.enqueue hcontext hsession hsend
  · simp only [hcontext, ne_eq, not_false_eq_true, if_true]
    exact h.leave decoded .unknownContext

/-- A drop is counted. -/
theorem Inv.countDrop {initial : UInt64} {s : Shared} (h : Inv initial s) (k : ℕ) :
    Inv initial (s.countDrop k) := by
  rw [Shared.countDrop]
  cases hk : s.pending[k]? with
  | none => exact h
  | some kind =>
      obtain ⟨drops, hcalls, hdropped⟩ := h.count
      refine ⟨h.table, h.sound, h.once, drops + 1, ?_, ?_⟩
      · have hlt := (List.getElem?_eq_some_iff.mp hk).1
        simp only [List.length_eraseIdx_of_lt hlt]
        omega
      · simp only [hdropped, UInt64.ofNat_add, UInt64.add_assoc]
        rfl

/-- **Every step keeps the invariant.** -/
theorem Inv.step {initial : UInt64} {s : Shared} (h : Inv initial s) (action : Action) :
    Inv initial (s.step action) := by
  cases action with
  | register q => exact h.register q
  | deliver decoded => exact h.deliver decoded
  | countDrop k => exact h.countDrop k
  | recv i => exact h.recv i
  | drop i => exact h.drop i

/-- **Every run keeps the invariant.** -/
theorem inv_run (initial : UInt64) (actions : List Action) : Inv initial (run initial actions) :=
  List.foldlRecOn (motive := Inv initial) actions Shared.step (inv_start initial)
    fun _ h action _ => h.step action

/-! ### The record -/

/-- What the receiver `i` has received, if there is one. -/
def taken (s : Shared) (i : ℕ) : List (List UInt8) :=
  match s.receivers[i]? with
  | some r => r.received.map (·.payload)
  | none => []

/-- Only a call of `deliver` adds to the calls. -/
theorem calls_step (s : Shared) (action : Action) :
    (s.step action).calls = s.calls ++ action.decoded?.toList := by
  cases action with
  | register q =>
      simp only [step, registerDatagrams, Action.decoded?, Option.toList_none, List.append_nil]
      split <;> rfl
  | deliver decoded =>
      simp only [step, deliver, Action.decoded?, Option.toList_some]
      split_ifs
      · rfl
      · split
        · rfl
        · split <;> rfl
  | countDrop k =>
      simp only [step, countDrop, Action.decoded?, Option.toList_none, List.append_nil]
      split <;> rfl
  | recv i =>
      simp only [step, recv, Action.decoded?, Option.toList_none, List.append_nil]
      split
      · rfl
      · split <;> rfl
  | drop i =>
      simp only [step, drop, Action.decoded?, Option.toList_none, List.append_nil]
      split
      · rfl
      · split_ifs <;> rfl

/-- A receiver that was replaced by one that has received the same. -/
theorem taken_set {s s' : Shared} {i : ℕ} {r : Receiver} (r' : Receiver)
    (hi : s.receivers[i]? = some r) (hs' : s'.receivers = s.receivers.set i r')
    (hreceived : r'.received = r.received) (j : ℕ) : s'.taken j = s.taken j := by
  have hlt := (List.getElem?_eq_some_iff.mp hi).1
  rw [taken, taken, hs']
  by_cases hj : i = j
  · subst hj
    rw [List.getElem?_set_self hlt, hi]
    exact congrArg (List.map (·.payload)) hreceived
  · rw [List.getElem?_set_ne hj]

/-- **What a receiver receives is what `recv` returns to it.** -/
theorem taken_step (s : Shared) (action : Action) (i : ℕ) :
    (s.step action).taken i = s.taken i ++ (s.returned? i action).toList := by
  cases action with
  | register q =>
      simp only [step, registerDatagrams, returned?, Option.toList_none, List.append_nil]
      cases s.sessions q with
      | some _ => rfl
      | none =>
          simp only [taken]
          rcases Nat.lt_trichotomy i s.receivers.length with hlt | rfl | hgt
          · rw [List.getElem?_append_left hlt]
          · simp
          · rw [List.getElem?_eq_none (by simp; omega), List.getElem?_eq_none (by omega)]
  | deliver decoded =>
      simp only [step, deliver, returned?, Option.toList_none, List.append_nil]
      split_ifs
      · rfl
      · cases s.sessions decoded.quarterStreamId with
        | none => rfl
        | some k =>
            cases hsend : s.trySend k ⟨s.calls.length, decoded.payload⟩ with
            | none => simp only [hsend]; rfl
            | some receivers =>
                simp only [hsend]
                obtain ⟨r, hk, -, -, rfl⟩ := trySend_eq_some hsend
                exact taken_set { r with
                  queue := r.queue ++ [⟨s.calls.length, decoded.payload⟩] } hk rfl rfl i
  | countDrop k =>
      simp only [step, countDrop, returned?, Option.toList_none, List.append_nil]
      split <;> rfl
  | recv k =>
      simp only [step, returned?]
      by_cases hk : k = i
      · subst hk
        rw [if_pos rfl]
        cases hr : s.receivers[k]? with
        | none => simp [recv, hr]
        | some r =>
            have hlt := (List.getElem?_eq_some_iff.mp hr).1
            simp only [recv, hr]
            split
            · simp [taken, List.getElem?_set_self hlt, hr]
            · simp
      · rw [if_neg hk, Option.toList_none, List.append_nil, recv]
        split
        · rfl
        · split
          · simp only [taken, List.getElem?_set_ne hk]
          · rfl
  | drop k =>
      simp only [step, drop, returned?, Option.toList_none, List.append_nil]
      cases hr : s.receivers[k]? with
      | none => rfl
      | some r =>
          simp only
          split_ifs
          · exact taken_set { r with queue := [], closed := some s.calls.length } hr rfl rfl i
          · rfl

/-- **The calls of a run** are its calls of `deliver`, in order. -/
theorem calls_run (initial : UInt64) (actions : List Action) :
    (run initial actions).calls = actions.filterMap Action.decoded? := by
  induction actions using List.reverseRecOn with
  | nil => rfl
  | append_singleton actions action ih =>
      have hlast : run initial (actions ++ [action]) = (run initial actions).step action :=
        History.run_concat step (start initial) actions action
      rw [hlast, calls_step, ih, List.filterMap_append]
      cases action <;> rfl

/-- **What a receiver has received in a run** is what `recv` returned to it, in order. -/
theorem taken_run (initial : UInt64) (actions : List Action) (i : ℕ) :
    (run initial actions).taken i =
      (History.history step (start initial) actions).filterMap fun moment =>
        moment.1.returned? i moment.2 := by
  induction actions using List.reverseRecOn with
  | nil => rfl
  | append_singleton actions action ih =>
      have hlast : run initial (actions ++ [action]) = (run initial actions).step action :=
        History.run_concat step (start initial) actions action
      rw [hlast, taken_step, ih, History.history_concat, List.filterMap_append]
      congr 1

/-! ### Routing safety -/

/-- A claim is refused exactly when a live receiver holds it. -/
theorem Inv.registerDatagrams_eq_none {initial : UInt64} {s : Shared} (h : Inv initial s)
    (q : ℕ) : (s.registerDatagrams q).1 = none ↔ ∃ i, s.Claims i q := by
  rw [registerDatagrams]
  cases hq : s.sessions q with
  | some i => exact iff_of_true rfl ⟨i, (h.table q i).mp hq⟩
  | none =>
      refine iff_of_false nofun ?_
      rintro ⟨i, hclaims⟩
      rw [← h.table, hq] at hclaims
      cases hclaims

/-- An ID is in the table exactly when exactly one live receiver claims it. -/
theorem Inv.sessions_isSome {initial : UInt64} {s : Shared} (h : Inv initial s) (q : ℕ) :
    (s.sessions q).isSome ↔ ∃! i, s.Claims i q := by
  rw [Option.isSome_iff_exists]
  constructor
  · rintro ⟨i, hi⟩
    refine ⟨i, (h.table q i).mp hi, ?_⟩
    intro j hj
    rw [← h.table] at hj
    exact Option.some.inj (hj.symm.trans hi)
  · rintro ⟨i, hi, -⟩
    exact ⟨i, (h.table q i).mpr hi⟩

/-- A call that is done is enqueued or counted, as long as the counter has not wrapped. -/
theorem Inv.calls_eq {initial : UInt64} {s : Shared} (h : Inv initial s)
    (hpending : s.pending = []) (hcalls : s.calls.length < 2 ^ 64) :
    s.calls.length = s.enqueued + (s.droppedDatagrams - initial).toNat := by
  obtain ⟨drops, heq, hdropped⟩ := h.count
  rw [hpending, List.length_nil] at heq
  have hgrowth : (s.droppedDatagrams - initial).toNat = drops := by
    rw [hdropped, UInt64.add_comm, UInt64.add_sub_cancel]
    exact UInt64.toNat_ofNat_of_lt' (show drops < 2 ^ 64 by omega)
  omega

/-- **Datagram routing is safe under any interleaving** of registering, delivering, receiving
and dropping. An ID is in the table exactly when exactly one live receiver claims it, and a
claim is refused exactly when there is one. Everything a receiver gets, and everything still in
its bounded queue, was delivered with its own Quarter Stream ID and Context ID 0 by a call made
after it registered and before it was dropped, in the order of the calls, and to no other
receiver. The calls of `deliver` are the payloads enqueued, the drops counted and the drops
about to be counted; with none of the last, they are the payloads enqueued and the growth of
the counter. The calls spoken of are the run's own calls of `deliver`, in order, and what a
receiver received is what `recv` returned to it. -/
theorem datagram_routing (initial : UInt64) (actions : List Action) :
    (run initial actions).calls = actions.filterMap Action.decoded? ∧
    (∀ (i : ℕ) (r : Receiver), (run initial actions).receivers[i]? = some r →
      r.received.map (·.payload) =
        (History.history step (start initial) actions).filterMap fun moment =>
          moment.1.returned? i moment.2) ∧
    (∀ q, ((run initial actions).sessions q).isSome ↔ ∃! i, (run initial actions).Claims i q) ∧
    (∀ q, ((run initial actions).registerDatagrams q).1 = none ↔
      ∃ i, (run initial actions).Claims i q) ∧
    (∀ (i : ℕ) (r : Receiver), (run initial actions).receivers[i]? = some r →
      r.queue.length ≤ inboundQueueDepth ∧
      (r.received ++ r.queue).Pairwise (fun d d' => d.call < d'.call) ∧
      ∀ d ∈ r.received ++ r.queue,
        (∃ decoded, (run initial actions).calls[d.call]? = some decoded ∧
          decoded.quarterStreamId = r.quarterStreamId ∧
          decoded.contextId = contextIdUdpPayload ∧ decoded.payload = d.payload) ∧
        r.since ≤ d.call ∧ ∀ c, r.closed = some c → d.call < c) ∧
    (∀ (i j : ℕ) (r r' : Receiver), (run initial actions).receivers[i]? = some r →
      (run initial actions).receivers[j]? = some r' → i ≠ j →
      ∀ d ∈ r.received ++ r.queue, ∀ d' ∈ r'.received ++ r'.queue, d.call ≠ d'.call) ∧
    (∃ drops, (run initial actions).calls.length = (run initial actions).enqueued + drops +
        (run initial actions).pending.length ∧
      (run initial actions).droppedDatagrams = initial + UInt64.ofNat drops) ∧
    ((run initial actions).pending = [] → (run initial actions).calls.length < 2 ^ 64 →
      (run initial actions).calls.length = (run initial actions).enqueued +
        ((run initial actions).droppedDatagrams - initial).toNat) := by
  have h := inv_run initial actions
  refine ⟨calls_run initial actions, ?_, h.sessions_isSome, h.registerDatagrams_eq_none, ?_,
    h.once, h.count, h.calls_eq⟩
  · intro i r hr
    rw [← taken_run, taken, hr]
  · intro i r hr
    have hsound := h.sound i r hr
    exact ⟨hsound.depth, hsound.order, fun d hd => ⟨hsound.own d hd, hsound.during d hd⟩⟩

end Shared

end Datagrams

end Volto
