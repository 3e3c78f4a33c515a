import Mathlib.Data.List.Induction
import Volto.H3.Frame

/-!
# Accepting Requests and Going Away

`Connection::accept` and `Connection::shutdown` of `h3/connection.rs`. A GOAWAY names the
first request this connection will not serve, and a client retries everything at or above it
elsewhere, so a request served above an identifier that was sent would be executed twice.

The state is what the two functions read and write, `lastAccepted` and `goingAway`, with the
streams QUIC has handed over and `accept` has not taken yet, and a log of what was done:
streams served, streams rejected, identifiers sent. Streams arrive, `accept` is called and
`shutdown` is called in any order. Whether the write of a GOAWAY succeeds changes nothing
here, since the identifier is recorded before it; every attempt is in the log.

## Main results

* `inv_run`: every run keeps the log and the state in agreement.
* `goaway_agreement`: what holds of the log after any interleaving.
-/

namespace Volto

/-- The distance between consecutive client-initiated bidirectional stream ids. -/
def requestStreamStep : ℕ := 4

/-- The largest `u64`. -/
def u64Max : ℕ := 2 ^ 64 - 1

/-- The stream id four past `lastAccepted`, or zero if nothing was accepted. -/
def nextRequestId (lastAccepted : Option ℕ) : ℕ :=
  match lastAccepted with
  | none => 0
  | some id => min (min (id + requestStreamStep) u64Max) varintMax

/-- The GOAWAY frame for an identifier, or `none` where a varint cannot be written. -/
def goawayFrame (identifier : ℕ) : Option (List UInt8) := do
  let header ← Frame.putHeader FrameType.goaway (varintLen identifier)
  let payload ← putVarint identifier
  pure (header ++ payload)

/-- An identifier that is a varint has a GOAWAY frame. -/
theorem goawayFrame_isSome {identifier : ℕ} (h : identifier ≤ varintMax) :
    (goawayFrame identifier).isSome := by
  obtain ⟨payload, hpayload⟩ := Option.isSome_iff_exists.mp ((putVarint_isSome_iff _).mpr h)
  have hlen : varintLen identifier ≤ 8 := by
    rw [varintLen]
    split_ifs <;> omega
  obtain ⟨length, hlength⟩ := Option.isSome_iff_exists.mp
    ((putVarint_isSome_iff (varintLen identifier)).mpr (hlen.trans (by decide)))
  obtain ⟨kind, hkind⟩ := Option.isSome_iff_exists.mp
    ((putVarint_isSome_iff FrameType.goaway).mpr (by decide))
  simp [goawayFrame, Frame.putHeader, hpayload, hlength, hkind]

/-- The request side of a connection. -/
structure Requests where
  /-- The id of the last request stream accepted. -/
  lastAccepted : Option ℕ
  /-- The identifier of the last GOAWAY sent. -/
  goingAway : Option ℕ
deriving DecidableEq, Repr

namespace Requests

/-- What is done with a stream, and the identifiers sent. -/
inductive Event
  | served (id : ℕ)
  | rejected (id : ℕ) (code : Code)
  | goaway (identifier : ℕ)
deriving DecidableEq, Repr

/-- The stream an event is about. -/
def Event.stream : Event → Option ℕ
  | .served id => some id
  | .rejected id _ => some id
  | .goaway _ => none

/-- The identifier an event sent. -/
def Event.sent : Event → Option ℕ
  | .goaway identifier => some identifier
  | _ => none

/-- The loop of `accept` over the streams that have arrived: those past a GOAWAY are rejected,
and the first other one is served. -/
def acceptLoop (r : Requests) : List ℕ → List Event × Requests × List ℕ
  | [] => ([], r, [])
  | id :: queue =>
      if r.goingAway.any (· ≤ id) then
        let (events, r, queue) := r.acceptLoop queue
        (.rejected id Code.h3RequestRejected :: events, r, queue)
      else
        ([.served id], { r with lastAccepted := some id }, queue)

/-- The identifier `shutdown` sends: never above one that was sent before. -/
def identifier (r : Requests) : ℕ :=
  let next := nextRequestId r.lastAccepted
  match r.goingAway with
  | none => next
  | some sent => min sent next

/-- Starts a graceful shutdown: the identifier is recorded, and then sent. -/
def shutdown (r : Requests) : List Event × Requests :=
  ([.goaway r.identifier], { r with goingAway := some r.identifier })

/-- A connection's requests with the streams QUIC has handed over and `accept` has not taken,
and the log of what was done. -/
structure Run where
  requests : Requests
  queue : List ℕ
  log : List Event
deriving DecidableEq, Repr

/-- What can happen next: a stream arrives, `accept` is called, `shutdown` is called. -/
inductive Action
  | arrive (id : ℕ)
  | accept
  | shutdown
deriving DecidableEq, Repr

namespace Run

/-- A connection that has seen nothing. -/
def start : Run := ⟨⟨none, none⟩, [], []⟩

/-- One action. -/
def step (s : Run) : Action → Run
  | .arrive id => { s with queue := s.queue ++ [id] }
  | .accept =>
      let (events, requests, queue) := s.requests.acceptLoop s.queue
      ⟨requests, queue, s.log ++ events⟩
  | .shutdown =>
      let (events, requests) := s.requests.shutdown
      { s with requests := requests, log := s.log ++ events }

/-- The connection after a run of actions. -/
def run (actions : List Action) : Run :=
  actions.foldl step start

end Run

/-- The streams that arrive in a run, in order. -/
def arrivals (actions : List Action) : List ℕ :=
  actions.filterMap fun
    | .arrive id => some id
    | _ => none

/-! ### The invariant -/

/-- Ids of client-initiated bidirectional streams, handed over in increasing order. -/
structure Ordered (ids : List ℕ) : Prop where
  increasing : ids.Pairwise (· < ·)
  clientBidi : ∀ id ∈ ids, requestStreamStep ∣ id ∧ id < 2 ^ 62

/-- The log and the state agree. Every stream that arrived is in the log or waiting; what was
served is at most `lastAccepted` and below what was sent; what was sent never increases, and
`goingAway` is the last of it. -/
structure Inv (arrived : List ℕ) (s : Run) : Prop where
  streams : s.log.filterMap Event.stream ++ s.queue = arrived
  rejected : ∀ id code, .rejected id code ∈ s.log → code = Code.h3RequestRejected
  sent : (s.log.filterMap Event.sent).Pairwise (· ≥ ·)
  goingAway : ∀ x, .goaway x ∈ s.log → ∃ g, s.requests.goingAway = some g ∧ g ≤ x
  encodable : ∀ x, .goaway x ∈ s.log → x ≤ varintMax
  served : ∀ id, .served id ∈ s.log →
    (∃ last, s.requests.lastAccepted = some last ∧ id ≤ last) ∧
    ∀ g, s.requests.goingAway = some g → id < g
  lastAccepted : ∀ last, s.requests.lastAccepted = some last → last < varintMax

/-- A connection that has seen nothing. -/
theorem inv_start : Inv [] Run.start :=
  ⟨rfl, by simp [Run.start], by simp [Run.start], by simp [Run.start], by simp [Run.start],
    by simp [Run.start], by simp [Run.start]⟩

/-- A stream arrives. -/
theorem Inv.arrive {arrived : List ℕ} {s : Run} (h : Inv arrived s) (id : ℕ) :
    Inv (arrived ++ [id]) { s with queue := s.queue ++ [id] } :=
  ⟨by rw [← h.streams, List.append_assoc], h.rejected, h.sent, h.goingAway, h.encodable,
    h.served, h.lastAccepted⟩

/-- A stream past the last GOAWAY is rejected. -/
theorem Inv.reject {arrived : List ℕ} {r : Requests} {id : ℕ} {queue : List ℕ}
    {log : List Event} (h : Inv arrived ⟨r, id :: queue, log⟩) :
    Inv arrived ⟨r, queue, log ++ [.rejected id Code.h3RequestRejected]⟩ where
  streams := by
    rw [← h.streams]
    simp [Event.stream]
  rejected := by
    intro id' code hmem
    rcases List.mem_append.mp hmem with hmem | hmem
    · exact h.rejected id' code hmem
    · cases List.mem_singleton.mp hmem
      rfl
  sent := by simpa [List.filterMap_cons, Event.sent] using h.sent
  goingAway := by simpa using h.goingAway
  encodable := by simpa using h.encodable
  served := by simpa using h.served
  lastAccepted := h.lastAccepted

/-- A stream below the last GOAWAY is served. -/
theorem Inv.serve {arrived : List ℕ} (hordered : Ordered arrived) {r : Requests} {id : ℕ}
    {queue : List ℕ} {log : List Event} (h : Inv arrived ⟨r, id :: queue, log⟩)
    (hbelow : r.goingAway.any (· ≤ id) = false) :
    Inv arrived ⟨{ r with lastAccepted := some id }, queue, log ++ [.served id]⟩ := by
  have hstreams := h.streams
  simp only at hstreams
  have hid : id ∈ arrived := by
    rw [← hstreams]
    simp
  -- the streams in the log arrived before this one
  have hlt : ∀ id', .served id' ∈ log → id' < id := by
    intro id' hmem
    have hpair := hordered.increasing
    rw [← hstreams, List.pairwise_append] at hpair
    exact hpair.2.2 id' (List.mem_filterMap.mpr ⟨_, hmem, rfl⟩) id List.mem_cons_self
  have hmax : id < varintMax := by
    obtain ⟨hdvd, hlt⟩ := hordered.clientBidi id hid
    rw [requestStreamStep] at hdvd
    rw [varintMax]
    omega
  refine ⟨?_, by simpa using h.rejected, by simpa [List.filterMap_cons, Event.sent] using h.sent,
    by simpa using h.goingAway, by simpa using h.encodable, ?_, ?_⟩
  · rw [← hstreams]
    simp [Event.stream]
  · intro id' hmem
    rcases List.mem_append.mp hmem with hmem | hmem
    · exact ⟨⟨id, rfl, (hlt id' hmem).le⟩, (h.served id' hmem).2⟩
    · cases List.mem_singleton.mp hmem
      refine ⟨⟨id, rfl, le_rfl⟩, ?_⟩
      intro g hg
      simp only at hg
      simpa [hg] using hbelow
  · rintro last ⟨rfl⟩
    exact hmax

/-- The identifier sent is past everything that was served. -/
theorem Inv.lt_identifier {arrived : List ℕ} {s : Run} (h : Inv arrived s) {id : ℕ}
    (hserved : .served id ∈ s.log) : id < s.requests.identifier := by
  obtain ⟨⟨last, hlast, hle⟩, hbelow⟩ := h.served id hserved
  have hmax := h.lastAccepted last hlast
  have hnext : id < nextRequestId s.requests.lastAccepted := by
    simp only [nextRequestId, hlast]
    simp only [requestStreamStep, u64Max] at *
    simp only [varintMax] at *
    omega
  rw [identifier]
  cases hg : s.requests.goingAway with
  | none => exact hnext
  | some sent => exact lt_min (hbelow sent hg) hnext

/-- The identifier sent is at most every one sent before, and can be written. -/
theorem Inv.identifier_le {arrived : List ℕ} {s : Run} (h : Inv arrived s) :
    (∀ x, .goaway x ∈ s.log → s.requests.identifier ≤ x) ∧
      s.requests.identifier ≤ varintMax := by
  have hnext : nextRequestId s.requests.lastAccepted ≤ varintMax := by
    simp only [nextRequestId]
    split
    · exact Nat.zero_le _
    · exact min_le_right _ _
  refine ⟨?_, ?_⟩
  · intro x hx
    obtain ⟨g, hg, hle⟩ := h.goingAway x hx
    simp only [identifier, hg]
    exact (min_le_left _ _).trans hle
  · rw [identifier]
    split
    · exact hnext
    · exact (min_le_right _ _).trans hnext

/-- A GOAWAY is sent. -/
theorem Inv.shutdown {arrived : List ℕ} {s : Run} (h : Inv arrived s) :
    Inv arrived ⟨{ s.requests with goingAway := some s.requests.identifier }, s.queue,
      s.log ++ [.goaway s.requests.identifier]⟩ := by
  obtain ⟨hle, hmax⟩ := h.identifier_le
  refine ⟨by simpa [List.filterMap_cons, Event.stream] using h.streams,
    by simpa using h.rejected, ?_, ?_, ?_, ?_, h.lastAccepted⟩
  · rw [List.filterMap_append, List.pairwise_append]
    refine ⟨h.sent, by simp [Event.sent], ?_⟩
    intro x hx y hy
    simp only [List.mem_filterMap, List.mem_singleton] at hx hy
    obtain ⟨e, he, hsent⟩ := hx
    obtain ⟨_, rfl, hsent'⟩ := hy
    cases e with
    | goaway x' =>
        cases hsent
        cases hsent'
        exact hle x he
    | served | rejected => cases hsent
  · intro x hx
    rcases List.mem_append.mp hx with hx | hx
    · exact ⟨_, rfl, hle x hx⟩
    · cases List.mem_singleton.mp hx
      exact ⟨_, rfl, le_rfl⟩
  · intro x hx
    rcases List.mem_append.mp hx with hx | hx
    · exact h.encodable x hx
    · cases List.mem_singleton.mp hx
      exact hmax
  · intro id hid
    rcases List.mem_append.mp hid with hid | hid
    · refine ⟨(h.served id hid).1, ?_⟩
      rintro g ⟨rfl⟩
      exact h.lt_identifier hid
    · cases List.mem_singleton.mp hid

/-- A call of `accept`: rejections, and then at most one stream served. -/
theorem Inv.accept {arrived : List ℕ} (hordered : Ordered arrived) {r : Requests}
    {queue : List ℕ} {log : List Event} (h : Inv arrived ⟨r, queue, log⟩) :
    Inv arrived ⟨(r.acceptLoop queue).2.1, (r.acceptLoop queue).2.2,
      log ++ (r.acceptLoop queue).1⟩ := by
  induction queue generalizing log with
  | nil => simpa [acceptLoop] using h
  | cons id queue ih =>
      cases hpast : r.goingAway.any (· ≤ id) with
      | true =>
          simp only [acceptLoop, hpast, if_true]
          simpa using ih h.reject
      | false =>
          simp only [acceptLoop, hpast, Bool.false_eq_true, if_false]
          exact h.serve hordered hpast

/-- Arrivals so far are in order if all are. -/
theorem Ordered.of_append {ids ids' : List ℕ} (h : Ordered (ids ++ ids')) : Ordered ids :=
  ⟨(List.pairwise_append.mp h.increasing).1,
    fun id hid => h.clientBidi id (List.mem_append_left _ hid)⟩

/-- **Every run keeps the log and the state in agreement.** -/
theorem inv_run (actions : List Action) (hordered : Ordered (arrivals actions)) :
    Inv (arrivals actions) (Run.run actions) := by
  induction actions using List.reverseRecOn with
  | nil => exact inv_start
  | append_singleton actions action ih =>
      have harrivals : arrivals (actions ++ [action]) = arrivals actions ++ arrivals [action] :=
        List.filterMap_append
      have hrun : Run.run (actions ++ [action]) = (Run.run actions).step action := by
        simp [Run.run]
      rw [harrivals] at hordered ⊢
      have h := ih hordered.of_append
      rw [hrun]
      cases action with
      | arrive id => exact h.arrive id
      | accept =>
          rw [show arrivals [.accept] = [] from rfl, List.append_nil] at hordered ⊢
          exact Inv.accept hordered h
      | shutdown =>
          rw [show arrivals [.shutdown] = [] from rfl, List.append_nil]
          exact h.shutdown

/-- A stream has one event. -/
theorem Inv.stream_unique {arrived : List ℕ} (hordered : Ordered arrived) {s : Run}
    (h : Inv arrived s) {e e' : Event} (he : e ∈ s.log) (he' : e' ∈ s.log) {id : ℕ}
    (hid : e.stream = some id) (hid' : e'.stream = some id) : e = e' := by
  have hpair := hordered.increasing
  rw [← h.streams, List.pairwise_append, List.pairwise_filterMap] at hpair
  obtain ⟨i, hi, rfl⟩ := List.getElem_of_mem he
  obtain ⟨j, hj, rfl⟩ := List.getElem_of_mem he'
  rw [List.pairwise_iff_getElem] at hpair
  rcases Nat.lt_trichotomy i j with hij | rfl | hij
  · exact absurd (hpair.1 i j hi hj hij id hid id hid') (lt_irrefl id)
  · rfl
  · exact absurd (hpair.1 j i hj hi hij id hid' id hid) (lt_irrefl id)

/-! ### Agreement -/

/-- **GOAWAY agreement.** Let streams arrive in increasing order, and let `accept` and
`shutdown` be called in any order in between. Every stream that arrived is served, rejected or
still waiting. The identifiers sent never increase and each has a frame. Whatever was served,
before or after, is below every identifier sent; a stream taken after a GOAWAY with an id at
or above its identifier is rejected with `H3_REQUEST_REJECTED`; and no stream is both served
and rejected. -/
theorem goaway_agreement (actions : List Action) (hordered : Ordered (arrivals actions)) :
    (Run.run actions).log.filterMap Event.stream ++ (Run.run actions).queue =
        arrivals actions ∧
    (∀ x y, [.goaway x, .goaway y].Sublist (Run.run actions).log → y ≤ x) ∧
    (∀ x, .goaway x ∈ (Run.run actions).log → (goawayFrame x).isSome) ∧
    (∀ id x, .served id ∈ (Run.run actions).log → .goaway x ∈ (Run.run actions).log →
      id < x) ∧
    (∀ before event after id x, (Run.run actions).log = before ++ event :: after →
      event.stream = some id → .goaway x ∈ before → x ≤ id →
        event = .rejected id Code.h3RequestRejected) ∧
    ∀ id code, .served id ∈ (Run.run actions).log →
      .rejected id code ∉ (Run.run actions).log := by
  have h := inv_run actions hordered
  have hbelow : ∀ id x, .served id ∈ (Run.run actions).log →
      .goaway x ∈ (Run.run actions).log → id < x := by
    intro id x hid hx
    obtain ⟨g, hg, hle⟩ := h.goingAway x hx
    exact ((h.served id hid).2 g hg).trans_le hle
  refine ⟨h.streams, ?_, ?_, hbelow, ?_, ?_⟩
  · intro x y hsub
    have hpair := h.sent.sublist (hsub.filterMap Event.sent)
    simpa [Event.sent] using hpair
  · intro x hx
    exact goawayFrame_isSome (h.encodable x hx)
  · intro before event after id x hlog hevent hx hle
    have hmem : event ∈ (Run.run actions).log := by
      rw [hlog]
      simp
    cases event with
    | goaway => cases hevent
    | served id' =>
        cases hevent
        have := hbelow id x hmem (by rw [hlog]; exact List.mem_append_left _ hx)
        omega
    | rejected id' code =>
        cases hevent
        rw [h.rejected id code hmem]
  · intro id code hserved hrejected
    cases h.stream_unique hordered hserved hrejected rfl rfl

/-- A request served, a GOAWAY, a request rejected. -/
theorem goaway_agreement_two_streams :
    Ordered (arrivals [.arrive 0, .accept, .shutdown, .arrive 4, .accept]) ∧
      (Run.run [.arrive 0, .accept, .shutdown, .arrive 4, .accept]).log =
        [.served 0, .goaway 4, .rejected 4 Code.h3RequestRejected] ∧
      (0 : ℕ) < 4 := by
  have hordered : Ordered (arrivals [.arrive 0, .accept, .shutdown, .arrive 4, .accept]) :=
    ⟨by decide, by decide⟩
  obtain ⟨-, -, -, hbelow, -, -⟩ := goaway_agreement _ hordered
  exact ⟨hordered, by decide, hbelow 0 4 (by decide) (by decide)⟩

end Requests

end Volto
