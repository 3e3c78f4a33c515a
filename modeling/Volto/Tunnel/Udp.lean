import Mathlib.Algebra.Order.Ring.Nat
import Mathlib.Data.List.Basic
import Volto.Capsule
import Volto.H3.Datagrams
import Volto.H3.Error
import Volto.Lib.Saturating

/-!
# CONNECT-UDP Sessions

The session of `tunnel/udp.rs` and the connection's unanswered-packet allowance of
`tunnel/mod.rs`. A session waits for one of three sources, the payloads the connection's router
decoded for it, the packets of its target and the capsule sequence of its request stream, and
handles what comes: `forwardToTarget`, `forwardToClient` and `handleStreamChunk`.

What a handler finds outside the session is an argument of it: the value of the connection's
counter at the one atomic operation a handler makes on it, what the target socket or the stream
answers, and the clock. The session keeps a record of what it did: the signals it put on the
two halves of its stream, the payloads it took from each source and those the socket took, and
the packets it handed back to the client.
-/

namespace Volto

namespace Udp

open Resumable Saturating

/-- How many session budgets a whole connection may spend on silent targets. -/
def connectionUnansweredMultiplier : ℕ := 8

/-- What a session reads of its connection. -/
structure Context where
  /-- Packets a session may send to a target that has not answered; 0 is no bound. -/
  unansweredPacketBudget : ℕ
  /-- What the connection's counter starts with and is never refunded beyond. -/
  unansweredConnectionTotal : ℕ
  /-- How long a session may be idle, and a capsule write outstanding. -/
  stallBudget : ℕ
deriving DecidableEq, Repr

namespace Context

/-- The context of an accepted connection; the product saturates. -/
def new (unansweredPacketBudget stallBudget : ℕ) : Context where
  unansweredPacketBudget := unansweredPacketBudget
  unansweredConnectionTotal := min (unansweredPacketBudget * connectionUnansweredMultiplier) limit32
  stallBudget := stallBudget

/-- Spends one packet of the connection's allowance: the counter after it, or `none` when there
was none to spend. -/
def chargeUnanswered (ctx : Context) (remaining : ℕ) : Option ℕ :=
  if ctx.unansweredPacketBudget = 0 then
    some remaining
  else if remaining = 0 then
    none
  else
    some (remaining - 1)

/-- Gives back what a session charged; the addition saturates and the total caps it. -/
def refundUnanswered (ctx : Context) (remaining charged : ℕ) : ℕ :=
  if ctx.unansweredPacketBudget = 0 ∨ charged = 0 then
    remaining
  else
    min (Saturating.add limit32 remaining charged) ctx.unansweredConnectionTotal

end Context

/-- The error numbers of the target socket that are told apart. -/
inductive IoError
  | emsgsize
  | eperm
  | eacces
  | enobufs
  | other
deriving DecidableEq, Repr

/-- Whether a failure affects only the one packet. -/
def isPerPacketError : IoError → Bool
  | .emsgsize | .eperm | .eacces | .enobufs => true
  | .other => false

/-- What a step of the session loop decided. -/
inductive Step
  /-- Keep going. -/
  | proceed
  /-- The session is over; close the request stream tidily. -/
  | stop
  /-- The session is over and its stream has already been reset. -/
  | aborted (code : Code)
deriving DecidableEq, Repr

/-- What a failure of the target socket's read side costs. -/
def readVerdict (error : IoError) : Step :=
  if isPerPacketError error then .proceed else .stop

/-- What a session puts on its request stream besides data. -/
inductive Signal
  | reset (code : Code)
  | finish
  | stopReceiving (code : Code)
deriving DecidableEq, Repr

/-- The two ways a client's payload reaches a session. -/
inductive Path
  | datagram
  | capsule
deriving DecidableEq, Repr

/-- The number of bytes of an HTTP/3 datagram. -/
def encodedLen (quarterStreamId contextId payloadLen : ℕ) : ℕ :=
  varintLen quarterStreamId + varintLen contextId + payloadLen

/-- A running UDP session; the last fields are its record. -/
structure Session where
  quarterStreamId : ℕ
  decoder : CapsuleDecoder
  /-- Packets still allowed towards a target that has never answered; `none` is uncapped. -/
  unansweredBudget : Option ℕ
  /-- What this session has charged the connection's total so far. -/
  chargedUnanswered : ℕ
  /-- When this session becomes idle enough to close. -/
  deadline : ℕ
  signals : List Signal
  /-- The payloads taken from the router, and the chunks taken from the stream. -/
  routed : List (List UInt8)
  chunks : List (List UInt8)
  /-- The payloads the target socket took, with the way each came. -/
  sent : List (Path × List UInt8)
  /-- The packets the socket was asked to take before the target answered. -/
  attempted : ℕ
  /-- The packets the target sent. -/
  packets : ℕ
  /-- The packets that left for the client, with the way each went. -/
  replies : List (Path × List UInt8)
deriving DecidableEq, Repr

/-- What `forward_to_target` meets: the connection's counter, the socket's answer and the
clock. -/
structure Sending where
  remaining : ℕ
  sent : Except IoError Unit
  now : ℕ

/-- How a bounded capsule write ends. -/
inductive Write
  | ok
  | error
  | elapsed
deriving DecidableEq, Repr

/-- What `forward_to_client` meets: the connection's counter, the clock, the largest datagram
the peer takes, if any, and how a capsule write ends. -/
structure Replying where
  remaining : ℕ
  now : ℕ
  datagramLimit : Option ℕ
  write : Write
deriving DecidableEq, Repr

/-- What a handler leaves: its verdict, the connection's counter and the session. -/
structure Handled where
  step : Step
  remaining : ℕ
  session : Session
deriving DecidableEq, Repr

namespace Session

/-- A session that has just been answered with 200. -/
def new (ctx : Context) (quarterStreamId now : ℕ) : Session where
  quarterStreamId := quarterStreamId
  decoder := .new
  unansweredBudget :=
    if ctx.unansweredPacketBudget = 0 then none else some ctx.unansweredPacketBudget
  chargedUnanswered := 0
  deadline := now + ctx.stallBudget
  signals := []
  routed := []
  chunks := []
  sent := []
  attempted := 0
  packets := 0
  replies := []

/-- Resets the sending half of the stream. -/
def reset (s : Session) (code : Code) : Session :=
  { s with signals := s.signals ++ [.reset code] }

/-- Asks the client to stop sending. -/
def stopReceiving (s : Session) (code : Code) : Session :=
  { s with signals := s.signals ++ [.stopReceiving code] }

/-- Finishes the sending half of the stream. -/
def finish (s : Session) : Session :=
  { s with signals := s.signals ++ [.finish] }

/-- Pushes the idle deadline out by one timeout from now. -/
def touch (s : Session) (ctx : Context) (now : ℕ) : Session :=
  { s with deadline := now + ctx.stallBudget }

/-- The socket is asked to take a packet, which counts as long as the target has not answered. -/
def attempt (s : Session) : Session :=
  { s with attempted := s.attempted + if s.packets = 0 then 1 else 0 }

/-- The send at the end of `forward_to_target`. -/
def sendToTarget (s : Session) (ctx : Context) (path : Path) (payload : List UInt8)
    (env : Sending) : Step × Session :=
  let s := s.attempt
  match env.sent with
  | .ok () => (.proceed, ({ s with sent := s.sent ++ [(path, payload)] }).touch ctx env.now)
  | .error error => (if isPerPacketError error then .proceed else .stop, s)

/-- Forwards a payload received from the client to the target. -/
def forwardToTarget (s : Session) (ctx : Context) (path : Path) (payload : List UInt8)
    (env : Sending) : Handled :=
  if maxUdpPayload < payload.length then
    ⟨.aborted .h3DatagramError, env.remaining, s.reset .h3DatagramError⟩
  else
    match s.unansweredBudget with
    | none =>
        let (step, s) := s.sendToTarget ctx path payload env
        ⟨step, env.remaining, s⟩
    | some 0 => ⟨.proceed, env.remaining, s⟩
    | some (budget + 1) =>
        match ctx.chargeUnanswered env.remaining with
        | none => ⟨.aborted .h3RequestCancelled, env.remaining, s.reset .h3RequestCancelled⟩
        | some remaining =>
            let s := { s with
              unansweredBudget := some budget
              chargedUnanswered := s.chargedUnanswered + 1 }
            let (step, s) := s.sendToTarget ctx path payload env
            ⟨step, remaining, s⟩

/-- Forwards a packet received from the target to the client. -/
def forwardToClient (s : Session) (ctx : Context) (packet : List UInt8) (env : Replying) :
    Handled :=
  let remaining := ctx.refundUnanswered env.remaining s.chargedUnanswered
  let s := ({ s with
    unansweredBudget := none
    chargedUnanswered := 0
    packets := s.packets + 1 }).touch ctx env.now
  match env.datagramLimit with
  | some limit =>
      -- a packet that does not fit is dropped rather than sent as a capsule
      if limit < encodedLen s.quarterStreamId contextIdUdpPayload packet.length then
        ⟨.proceed, remaining, s⟩
      else
        ⟨.proceed, remaining, { s with replies := s.replies ++ [(.datagram, packet)] }⟩
  | none =>
      match env.write with
      | .ok => ⟨.proceed, remaining, { s with replies := s.replies ++ [(.capsule, packet)] }⟩
      | .error => ⟨.stop, remaining, s⟩
      | .elapsed => ⟨.aborted .h3RequestCancelled, remaining, s.reset .h3RequestCancelled⟩

/-- The decoder is the stream's business only. -/
theorem forwardToTarget_decoder (s : Session) (ctx : Context) (path : Path)
    (payload : List UInt8) (env : Sending) :
    (s.forwardToTarget ctx path payload env).session.decoder = s.decoder := by
  have hsend (s : Session) : (s.sendToTarget ctx path payload env).2.decoder = s.decoder := by
    rw [sendToTarget]
    split <;> rfl
  rw [forwardToTarget]
  split_ifs
  · rfl
  · split
    · exact hsend s
    · rfl
    · split
      · rfl
      · exact hsend _

/-- The capsule loop of `handle_stream_chunk`; `envs` is what the payloads it forwards meet, the
first of them as number `k`. -/
def handleCapsules (s : Session) (ctx : Context) (envs : ℕ → Sending) (k : ℕ) : Step × Session :=
  match _h : s.decoder.nextCapsule with
  | (none, decoder) => (.proceed, { s with decoder := decoder })
  | (some (.error _), decoder) =>
      (.aborted .h3DatagramError, ({ s with decoder := decoder }).reset .h3DatagramError)
  | (some (.ok (.datagram contextId payload)), decoder) =>
      if contextId ≠ contextIdUdpPayload then
        handleCapsules { s with decoder := decoder } ctx envs k
      else
        let handled := ({ s with decoder := decoder }).forwardToTarget ctx .capsule payload (envs k)
        match handled.step with
        | .proceed => handleCapsules handled.session ctx envs (k + 1)
        | verdict => (verdict, handled.session)
termination_by s.decoder.weight
decreasing_by
  · exact Loop.weight_lt_of_next _h
  · rw [forwardToTarget_decoder]
    exact Loop.weight_lt_of_next _h

/-- What `recv_data` on the request stream returns. -/
inductive Chunk
  | data (bytes : List UInt8)
  | fin
  | error
deriving DecidableEq, Repr

/-- Takes a chunk of the request stream into the decoder. -/
def push (s : Session) (bytes : List UInt8) : Session :=
  { s with decoder := s.decoder.push bytes, chunks := s.chunks ++ [bytes] }

/-- Handles bytes, the end or an error of the request stream. -/
def handleStreamChunk (s : Session) (ctx : Context) (envs : ℕ → Sending) : Chunk → Step × Session
  | .data bytes => (s.push bytes).handleCapsules ctx envs 0
  | .fin =>
      if s.decoder.atCapsuleBoundary then
        (.stop, s)
      else
        (.aborted .h3MessageError, s.reset .h3MessageError)
  | .error => (.stop, s)

end Session

/-- What one of the three sources produced, with what its handler meets. -/
inductive Event
  | inbound (payload : Option (List UInt8)) (env : Sending)
  | socket (received : Except IoError (List UInt8)) (env : Replying)
  | stream (chunk : Session.Chunk) (envs : ℕ → Sending)

/-- A turn of the session loop: the clock at its top, and the event the wait ended with, or
`none` when the deadline came first. -/
structure Turn where
  now : ℕ
  event : Option Event

namespace Session

/-- Takes a payload the router decoded. -/
def route (s : Session) (payload : List UInt8) : Session :=
  { s with routed := s.routed ++ [payload] }

/-- Handles one event. -/
def handle (s : Session) (ctx : Context) : Event → Step × Session
  | .inbound (some payload) env =>
      let handled := (s.route payload).forwardToTarget ctx .datagram payload env
      (handled.step, handled.session)
  | .inbound none _ => (.stop, s)
  | .socket (.ok packet) env =>
      let handled := s.forwardToClient ctx packet env
      (handled.step, handled.session)
  | .socket (.error error) _ => (readVerdict error, s)
  | .stream chunk envs => s.handleStreamChunk ctx envs chunk

/-- Waits for an event, unless the idle deadline has been reached already. -/
def beforeDeadline (s : Session) (turn : Turn) : Option Event :=
  if s.deadline ≤ turn.now then none else turn.event

/-- The tidy close at the end of `run`. -/
def close (s : Session) : Session :=
  (s.stopReceiving .h3NoError).finish

/-- One turn of the loop of `run`; the Boolean says whether the session goes on. -/
def turn (s : Session) (ctx : Context) (t : Turn) : Bool × Session :=
  match s.beforeDeadline t with
  | none => (false, s.close)
  | some event =>
      match s.handle ctx event with
      | (.proceed, s) => (true, s)
      | (.stop, s) => (false, s.close)
      | (.aborted code, s) => (false, s.stopReceiving code)

/-- The loop of `run`, over the turns it is given. -/
def run (s : Session) (ctx : Context) : List Turn → Bool × Session
  | [] => (true, s)
  | t :: turns =>
      match s.turn ctx t with
      | (true, s) => s.run ctx turns
      | (false, s) => (false, s)

end Session

end Udp

end Volto
