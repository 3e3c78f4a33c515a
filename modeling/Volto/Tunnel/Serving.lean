import Volto.H3.Datagrams
import Volto.H3.Goaway
import Volto.Lib.History
import Volto.Tunnel.AuthFailures
import Volto.Tunnel.HandlerRule
import Volto.Tunnel.Quota

/-!
# Serving a Connection

The whole of `conn.rs` at work: the accept loop of a connection, the task of every request stream it
has accepted, and what they share. An event is one step of one of them, so the steps of the tasks
are interleaved with each other and with those of the loop in any order: a task asks one question
and is given its answer, and the loop reads one thing or sees one thing happen. What the peer, the
resolver, the targets and the clock do is part of the event.

The branches of the `select!` are those that may win whenever they are ready; that the source polls
them in a fixed order is left out.

## Main definitions

* `Common.answer`: what a question does to the shared state.
* `Server.advance`: a step of the accept loop.
* `Server.step`: one event.
-/

namespace Volto

namespace Tunnel

namespace Serving

open Asking Handler

/-- What the configuration says about a connection. -/
structure Config where
  ctx : Context
  maxAuthFailures : UInt32
  maxTargetsPerConn : UInt32

/-- How many idle timeouts an unauthenticated connection has. -/
def silenceFactor : ℕ := 2

namespace Config

/-- What the failure buckets read. -/
def authContext (cfg : Config) : AuthContext :=
  ⟨cfg.ctx.auth, cfg.maxAuthFailures⟩

/-- How long an unauthenticated connection may be silent. -/
def silence (cfg : Config) : ℕ :=
  cfg.ctx.idle * silenceFactor

end Config

/-! ### What is shared -/

/-- What the requests of a connection share. -/
structure Common (tokio : Sync) where
  quota : Quota tokio
  failures : AuthFailures
  /-- Whether a request has authenticated. -/
  gate : Bool
  /-- How often the request-stream allowance was raised. -/
  raised : ℕ
  /-- How many requests got a slot. -/
  tunnels : ℕ
  datagrams : Datagrams.Shared
  now : ℕ

/-- The id of a stream among those that carry datagrams. -/
def quarterStreamId (streamId : ℕ) : ℕ :=
  streamId / 4

/-- Whether an answer may be given now: a deadline passes when it has been reached. -/
def admits (now : ℕ) : (question : Question) → question.Reply → Bool
  | .readRequest deadline, none => deadline ≤ now
  | .respond _ deadline, none => deadline ≤ now
  | .lookup _ _ deadline, none => deadline.any (· ≤ now)
  | .connect _ deadline, none => deadline.any (· ≤ now)
  | _, _ => true

variable {tokio : Sync}

namespace Common

/-- What the tasks of a new connection share. -/
def new (tokio : Sync) (cfg : Config) (droppedDatagrams : UInt64) : Common tokio where
  quota := .new tokio cfg.maxTargetsPerConn
  failures := .default
  gate := false
  raised := 0
  tunnels := 0
  datagrams := .start droppedDatagrams
  now := 0

/-- What a question of the task of a stream is answered, and what it does. What is not about the
shared state is answered from outside. -/
def answer (cfg : Config) (streamId : ℕ) (s : Common tokio) :
    (question : Question) → question.Reply → question.Reply × Common tokio
  | .now, _ => (s.now, s)
  | .recordAuthFailure claim, _ =>
      let (spent, failures) := cfg.authContext.recordAuthFailure s.failures claim
      (spent, { s with failures := failures })
  | .mark, _ => (!s.gate, { s with gate := true })
  | .admitConfiguredStreams, _ => ((), { s with raised := s.raised + 1 })
  | .clearFailures username, _ =>
      ((), { s with failures := s.failures.markAuthenticated username })
  | .acquire, _ => (s.quota.acquire.isSome, { s with quota := s.quota.step .acquire })
  | .countTunnel, _ => ((), { s with tunnels := s.tunnels + 1 })
  | .claimDatagrams, _ =>
      let (claimed, datagrams) := s.datagrams.registerDatagrams (quarterStreamId streamId)
      (claimed, { s with datagrams := datagrams })
  | .dropReceiver i, _ => ((), { s with datagrams := s.datagrams.drop i })
  | .dropSlot, _ => ((), { s with quota := s.quota.step .dropSlot })
  | .dropPending, _ => ((), { s with quota := s.quota.step .dropPending })
  | .announce, _ => ((), { s with quota := s.quota.step .announce })
  | _, reply => (reply, s)

end Common

/-- What a question does to the failures of its connection. -/
def authEvent : Question → Option AuthEvent
  | .recordAuthFailure claim => some (.failed claim)
  | .clearFailures username => some (.succeeded username)
  | _ => none

/-- The task of a request stream. -/
structure Task where
  streamId : ℕ
  progress : Progress Question Question.Reply Unit

/-! ### The accept loop -/

/-- How far `next_request` has come. -/
inductive Next
  | readGate
  | readClock
  /-- It accepts, until a deadline if the gate was closed. -/
  | accepting (deadline : Option ℕ)
deriving DecidableEq, Repr

/-- How the loop was left. -/
inductive Ending
  /-- `wait_until_idle` was ready after the GOAWAY. -/
  | drained
  /-- There was nothing left when the GOAWAY had gone out. -/
  | finished
  | silent
  | failed
  /-- The GOAWAY could not be sent. -/
  | unusable
deriving DecidableEq, Repr

/-- How far the loop has come. -/
inductive Loop
  | top
  /-- In the `select!`, with the `wait_until_idle` that is polled after a GOAWAY. -/
  | selecting (idle : Option ℕ) (next : Next)
  | announcing (deadline : ℕ)
  /-- `is_busy` reads the tunnels, and then the requests. -/
  | readLive
  | readPending
  | over (ending : Ending)
deriving DecidableEq, Repr

/-- A step of the loop. -/
inductive Move
  | select
  /-- The shutdown latch is seen. -/
  | fired
  /-- `wait_until_idle` takes its next step. -/
  | idle
  /-- `next_request` takes its next step. -/
  | next
  /-- The connection is lost. -/
  | lost
  /-- The GOAWAY is written, or cannot be. -/
  | written (ok : Bool)
  /-- A deadline has passed. -/
  | elapsed
  | isBusy
deriving DecidableEq, Repr

/-- A connection that is served. -/
structure Server (tokio : Sync) where
  common : Common tokio
  tasks : List Task
  loop : Loop
  requests : Requests
  /-- How many request streams the peer has opened. -/
  arrived : ℕ
  /-- Those that have not been accepted. -/
  queue : List ℕ
  /-- Whether the server is shutting down. -/
  fired : Bool
  deadline : ℕ
  /-- What was charged and cleared, by which task, in order. -/
  history : List (ℕ × AuthEvent)

/-- Drops the `wait_until_idle` of a `select!` that another branch has won. It is between two of its
polls. -/
def dropIdle (quota : Quota tokio) : Option ℕ → Option (Quota tokio)
  | none => some quota
  | some w =>
      match quota.waits[w]? with
      | some .created | some .parked => some (quota.step (.dropWait w))
      | _ => none

namespace Server

/-- A connection whose handshake is done. -/
def new (tokio : Sync) (cfg : Config) (droppedDatagrams : UInt64) : Server tokio where
  common := .new tokio cfg droppedDatagrams
  tasks := []
  loop := .top
  requests := ⟨none, none⟩
  arrived := 0
  queue := []
  fired := false
  deadline := cfg.silence
  history := []

variable (cfg : Config) (s : Server tokio)

/-- The connection with another quota. -/
def withQuota (quota : Quota tokio) : Server tokio :=
  { s with common := { s.common with quota := quota } }

/-- A question of a task has been answered. -/
def asked (i : ℕ) (task : Task) (question : Question) (next : question.Reply → Handling Unit)
    (outside : question.Reply) : Server tokio :=
  let (reply, common) := s.common.answer cfg task.streamId question outside
  { s with
    common := common
    tasks := s.tasks.set i
      ⟨task.streamId, task.progress.asked ++ [⟨question, reply⟩], next reply⟩
    history := s.history ++ (authEvent question).toList.map fun event => (i, event) }

/-- The task of a stream asks its next question. -/
def ask (i : ℕ) (outside : (question : Question) → question.Reply) : Server tokio :=
  match s.tasks[i]? with
  | none => s
  | some task =>
      match task.progress.rest with
      | .done _ => s
      | .ask question next =>
          if admits s.common.now question (outside question) then
            s.asked cfg i task question next (outside question)
          else s

/-- A request stream has been accepted: its task has the guard before it is first polled. -/
def accept (quota : Quota tokio) (requests : Requests) (queue : List ℕ) (id : ℕ) : Server tokio :=
  { s.withQuota (quota.step .enter) with
    tasks := s.tasks ++ [⟨id, [], serve cfg.ctx⟩]
    loop := .top
    requests := requests
    queue := queue }

/-- `next_request` takes its next step. -/
def nextRequest (idle : Option ℕ) : Next → Server tokio
  | .readGate =>
      { s with loop := .selecting idle (if s.common.gate then .accepting none else .readClock) }
  | .readClock =>
      if s.deadline ≤ s.common.now then { s with loop := .over .silent }
      else { s with loop := .selecting idle (.accepting (some s.deadline)) }
  | .accepting _ =>
      let (events, requests, queue) := s.requests.acceptLoop s.queue
      match events.getLast? with
      | some (.served id) =>
          match dropIdle s.common.quota idle with
          | some quota => s.accept cfg quota requests queue id
          | none => s
      | _ => { s with requests := requests, queue := queue }

/-- A step of the accept loop. -/
def advance (move : Move) : Server tokio :=
  match s.loop, move with
  | .top, .select =>
      if s.requests.goingAway.isSome then
        { s.withQuota (s.common.quota.step .wait) with
          loop := .selecting (some s.common.quota.waits.length) .readGate }
      else { s with loop := .selecting none .readGate }
  | .selecting none _, .fired =>
      if s.fired then
        { s with
          requests := s.requests.shutdown.2
          loop := .announcing (s.common.now + cfg.ctx.idle) }
      else s
  | .selecting (some w) next, .idle =>
      let quota := s.common.quota.step (.advance w)
      if quota.waits[w]? = some .done then { s.withQuota quota with loop := .over .drained }
      else { s.withQuota quota with loop := .selecting (some w) next }
  | .selecting idle next, .next => s.nextRequest cfg idle next
  | .selecting _ (.accepting _), .lost => { s with loop := .over .failed }
  | .selecting idle (.accepting (some deadline)), .elapsed =>
      if deadline ≤ s.common.now then { s with loop := .selecting idle .readGate } else s
  | .announcing _, .written ok => { s with loop := if ok then .readLive else .over .unusable }
  | .announcing deadline, .elapsed =>
      if deadline ≤ s.common.now then { s with loop := .readLive } else s
  | .readLive, .isBusy =>
      { s with loop := if 0 < s.common.quota.live then .top else .readPending }
  | .readPending, .isBusy =>
      { s with loop := if 0 < s.common.quota.pending then .top else .over .finished }
  | _, _ => s

end Server

/-- What can happen next. -/
inductive Event
  /-- A task asks its next question, and this is what comes from outside. -/
  | task (i : ℕ) (outside : (question : Question) → question.Reply)
  | loop (move : Move)
  /-- The peer opens its next request stream. -/
  | arrive
  /-- The server begins to shut down. -/
  | fire
  | tick (time : ℕ)
  /-- A datagram of the peer is routed. -/
  | deliver (decoded : Datagram)
  | countDrop (k : ℕ)
  /-- A session takes a payload. -/
  | recv (i : ℕ)

namespace Server

/-- One event. -/
def step (cfg : Config) (s : Server tokio) : Event → Server tokio
  | .task i outside => s.ask cfg i outside
  | .loop move => s.advance cfg move
  | .arrive =>
      -- the id of a stream is a varint
      if requestStreamStep * s.arrived ≤ varintMax then
        { s with arrived := s.arrived + 1, queue := s.queue ++ [requestStreamStep * s.arrived] }
      else s
  | .fire => { s with fired := true }
  | .tick time => { s with common := { s.common with now := s.common.now + time } }
  | .deliver decoded =>
      { s with common := { s.common with datagrams := s.common.datagrams.deliver decoded } }
  | .countDrop k =>
      { s with common := { s.common with datagrams := s.common.datagrams.countDrop k } }
  | .recv i =>
      { s with common := { s.common with datagrams := (s.common.datagrams.recv i).2 } }

/-- A run. -/
def run (cfg : Config) (s : Server tokio) (events : List Event) : Server tokio :=
  History.run (step cfg) s events

end Server

end Serving

end Tunnel

end Volto
