import Mathlib.Data.List.Basic
import Volto.H3.Error

/-!
# TCP Tunnels

The relay of `tunnel/tcp.rs`: two pumps under one `join!`, `client_to_target` and
`target_to_client`, which share a sticky teardown channel and a flag for each clean half-close.
A step is one resolution of a `select!` together with what its arm does up to the next await.
What the environment decides about a step is which of the other arms are ready, and with what;
the arms are `biased`, so they are tried in the order of the source, the teardown first. A poll
of a pump in the source is several steps in a row; here the other pump may run between any two.

The writer and the reader are quinn's: a writer that is dropped while its stream is open
finishes it, and a reader stops the peer with code 0. Writes fail, `stopped` resolves and
`finish` fails only when the client stopped the stream or the connection ended, and in each
case the response half is `failed`.

## Main results

* `Tunnel.clientStep` and `Tunnel.targetStep`: everything one step of a pump can do.
-/

namespace Volto

namespace Tcp

/-- Why the tunnel is being torn down, carried on the teardown channel. -/
inductive Teardown
  /-- Nothing has gone wrong; both directions are still relaying. -/
  | running
  /-- The client reset the request stream or stopped reading it. -/
  | clientAbort
  /-- The connection to the target failed, in either direction. -/
  | targetError
deriving DecidableEq, Repr

/-- The code this ending puts on the direction that did not see it. -/
def Teardown.code : Teardown → Code
  | .targetError => .h3ConnectError
  | .clientAbort | .running => .h3RequestCancelled

/-- The exits of `client_to_target`. -/
inductive ClientExit
  | tornDown (reason : Teardown)
  | writeFailed
  | aborted
  | stalled
  | finished
deriving DecidableEq, Repr

/-- Where `client_to_target` is: at one of its two selects, in the shutdown after the client's
FIN, or gone. -/
inductive ClientPump
  | reading
  | writing (data : List UInt8)
  | shuttingDown
  | returned (exit : ClientExit)
deriving DecidableEq, Repr

/-- Whether `client_to_target` waits at a select. -/
def ClientPump.atSelect : ClientPump → Bool
  | .reading | .writing _ => true
  | .shuttingDown | .returned _ => false

/-- The exits of `target_to_client`. -/
inductive TargetExit
  | tornDown (reason : Teardown)
  | stopped
  | eof
  | stalled
  | sendFailed
  | readFailed
deriving DecidableEq, Repr

/-- Where `target_to_client` is. -/
inductive TargetPump
  | reading
  | sending (data : List UInt8)
  | returned (exit : TargetExit)
deriving DecidableEq, Repr

/-- Whether `target_to_client` waits at a select. -/
def TargetPump.atSelect : TargetPump → Bool
  | .reading | .sending _ => true
  | .returned _ => false

/-- The receiving half of the request stream. -/
inductive Request
  | live
  /-- Read to the client's FIN. -/
  | finished
  /-- Reading failed: the client reset it or broke a rule, or the connection ended. -/
  | failed
  /-- This server asked the client to stop. -/
  | stopped (code : Code)
deriving DecidableEq, Repr

/-- Asking the peer to stop is a no-op on a half that is already over. -/
def Request.stop (code : Code) : Request → Request
  | .live => .stopped code
  | r => r

/-- A dropped reader stops the peer with code 0. -/
def Request.drop : Request → Request :=
  Request.stop ⟨0⟩

/-- The sending half of the request stream. -/
inductive Response
  | live
  /-- Ended cleanly, with a FIN. -/
  | finished
  /-- The client stopped it, or the connection ended. -/
  | failed
  | reset (code : Code)
deriving DecidableEq, Repr

/-- A reset does nothing to a half that is already over. -/
def Response.abandon (code : Code) : Response → Response
  | .live => .reset code
  | r => r

/-- A dropped writer finishes its stream. -/
def Response.drop : Response → Response
  | .live => .finished
  | r => r

/-- The write half of the target socket. -/
inductive TcpWrite
  | live
  /-- Shut down, which puts a FIN on the wire. -/
  | shutDown
  /-- Given up without a FIN. -/
  | forgotten
deriving DecidableEq, Repr

/-- A tunnel: the two pumps and all they touch. `sent`, `received` and `delivered` keep what went
over the teardown channel, what was read from the target and what a completed `send_data` took. -/
structure Tunnel where
  client : ClientPump
  target : TargetPump
  teardown : Teardown
  sent : List Teardown
  clientFinished : Bool
  targetEof : Bool
  request : Request
  response : Response
  tcpWrite : TcpWrite
  /-- Whether an abortive close of the target socket has been armed. -/
  armed : Bool
  received : List UInt8
  delivered : List UInt8
deriving DecidableEq, Repr

/-- Whether a fallible operation succeeded. -/
inductive Outcome
  | ok
  | error
deriving DecidableEq, Repr

/-- What `recv_data` returns. -/
inductive Recv
  | data (bytes : List UInt8)
  | fin
  | error
deriving DecidableEq, Repr

/-- What `read_buf` on the target socket returns; no bytes are the target's EOF. -/
inductive Read
  | bytes (data : List UInt8)
  | error
deriving DecidableEq, Repr

/-- What is ready for `client_to_target`, arm by arm. -/
structure ClientReady where
  recv : Option Recv
  write : Option Outcome
  resetByPeer : Bool
  /-- Whether the write has been outstanding for a whole budget since the half-close. -/
  budgetPassed : Bool
  shutdown : Bool
deriving DecidableEq, Repr

/-- What is ready for `target_to_client`, arm by arm. -/
structure TargetReady where
  read : Option Read
  stopped : Bool
  send : Option Outcome
  budgetPassed : Bool
  finish : Outcome
deriving DecidableEq, Repr

namespace Tunnel

/-- A tunnel whose 200 has been sent. -/
def start : Tunnel :=
  ⟨.reading, .reading, .running, [], false, false, .live, .live, .live, false, [], []⟩

/-- The reason a pump is to stop for, if it is. -/
def tornDown (s : Tunnel) : Option Teardown :=
  if s.teardown = .running then none else some s.teardown

/-- Sends on the teardown channel. -/
def send (s : Tunnel) (reason : Teardown) : Tunnel :=
  { s with teardown := reason, sent := s.sent ++ [reason] }

/-- Arms an abortive close on the target connection. -/
def abortTarget (s : Tunnel) : Tunnel :=
  { s with armed := true }

/-- Asks the client to stop sending. -/
def stopReceiving (s : Tunnel) (code : Code) : Tunnel :=
  { s with request := s.request.stop code }

/-- Resets the response. -/
def reset (s : Tunnel) (code : Code) : Tunnel :=
  { s with response := s.response.abandon code }

/-- `client_to_target` returns, dropping its reader. -/
def clientReturn (s : Tunnel) (exit : ClientExit) : Tunnel :=
  { s with client := .returned exit, request := s.request.drop }

/-- `target_to_client` returns, dropping its writer. -/
def targetReturn (s : Tunnel) (exit : TargetExit) : Tunnel :=
  { s with target := .returned exit, response := s.response.drop }

/-! ### Client to target -/

/-- The end of `client_to_target` after a teardown by the other pump. -/
def clientTornDown (s : Tunnel) (reason : Teardown) : Tunnel :=
  clientReturn { s.stopReceiving reason.code with tcpWrite := .forgotten } (.tornDown reason)

/-- `client_aborted`, after the reading half reported an error. -/
def clientAborted (s : Tunnel) : Tunnel :=
  let s := abortTarget { s with request := .failed }
  clientReturn (send { s with tcpWrite := .forgotten } .clientAbort) .aborted

/-- The target stopped reading after its own EOF. -/
def clientStalled (s : Tunnel) : Tunnel :=
  let s := (s.stopReceiving .h3ConnectError).abortTarget
  clientReturn (send { s with tcpWrite := .forgotten } .targetError) .stalled

/-- The write to the target failed; the half is dropped, not forgotten. -/
def clientWriteFailed (s : Tunnel) : Tunnel :=
  let s := (s.stopReceiving .h3ConnectError).send .targetError
  clientReturn { s with tcpWrite := .shutDown } .writeFailed

/-- The client finished its sending side; the flag is raised before the shutdown. -/
def clientFin (s : Tunnel) : Tunnel :=
  { s with request := .finished, clientFinished := true, client := .shuttingDown }

/-- The first select of `client_to_target` and what follows it. -/
def clientRead (s : Tunnel) (ready : ClientReady) : Tunnel :=
  match s.tornDown with
  | some reason => s.clientTornDown reason
  | none =>
      match ready.recv with
      | none => s
      | some (.data bytes) => { s with client := .writing bytes }
      | some .fin => s.clientFin
      | some .error => s.clientAborted

/-- The second select of `client_to_target` and what follows it. -/
def clientWrite (s : Tunnel) (ready : ClientReady) : Tunnel :=
  match s.tornDown with
  | some reason => s.clientTornDown reason
  | none =>
      match ready.write with
      | some .ok => { s with client := .reading }
      | some .error => s.clientWriteFailed
      | none =>
          if ready.resetByPeer then
            s.clientAborted
          else if s.targetEof && ready.budgetPassed then
            s.clientStalled
          else
            s

/-- One step of `client_to_target`. -/
def clientToTarget (s : Tunnel) (ready : ClientReady) : Tunnel :=
  match s.client with
  | .reading => s.clientRead ready
  | .writing _ => s.clientWrite ready
  | .shuttingDown =>
      if ready.shutdown then
        clientReturn { s with tcpWrite := .shutDown } .finished
      else
        s
  | .returned _ => s

/-! ### Target to client -/

/-- The end of `target_to_client` after a teardown by the other pump. -/
def targetTornDown (s : Tunnel) (reason : Teardown) : Tunnel :=
  targetReturn (s.reset reason.code) (.tornDown reason)

/-- The response ended under the tunnel: the client stopped it or the connection was lost. -/
def targetStopped (s : Tunnel) (exit : TargetExit) : Tunnel :=
  targetReturn ((abortTarget { s with response := .failed }).send .clientAbort) exit

/-- The client stopped reading after its own FIN. -/
def targetStalled (s : Tunnel) : Tunnel :=
  targetReturn (((s.reset .h3RequestCancelled).abortTarget).send .clientAbort) .stalled

/-- The read from the target failed. -/
def targetReadFailed (s : Tunnel) : Tunnel :=
  targetReturn ((s.reset .h3ConnectError).send .targetError) .readFailed

/-- The target's EOF; the flag is raised before the response is finished. -/
def targetFin (s : Tunnel) (finish : Outcome) : Tunnel :=
  let response := match finish with
    | .ok => .finished
    | .error => .failed
  targetReturn { s with targetEof := true, response := response } .eof

/-- The first select of `target_to_client` and what follows it. -/
def targetRead (s : Tunnel) (ready : TargetReady) : Tunnel :=
  match s.tornDown with
  | some reason => s.targetTornDown reason
  | none =>
      match ready.read with
      | some (.bytes data) =>
          if data = [] then
            s.targetFin ready.finish
          else
            { s with target := .sending data, received := s.received ++ data }
      | some .error => s.targetReadFailed
      | none => if ready.stopped then s.targetStopped .stopped else s

/-- The second select of `target_to_client` and what follows it. -/
def targetSend (s : Tunnel) (data : List UInt8) (ready : TargetReady) : Tunnel :=
  match s.tornDown with
  | some reason => s.targetTornDown reason
  | none =>
      match ready.send with
      | some .ok => { s with target := .reading, delivered := s.delivered ++ data }
      | some .error => s.targetStopped .sendFailed
      | none => if s.clientFinished && ready.budgetPassed then s.targetStalled else s

/-- One step of `target_to_client`. -/
def targetToClient (s : Tunnel) (ready : TargetReady) : Tunnel :=
  match s.target with
  | .reading => s.targetRead ready
  | .sending data => s.targetSend data ready
  | .returned _ => s

/-- A step of one of the pumps, with what is ready for it. -/
inductive Poll
  | client (ready : ClientReady)
  | target (ready : TargetReady)
deriving DecidableEq, Repr

/-- One step of the tunnel. -/
def step (s : Tunnel) : Poll → Tunnel
  | .client ready => s.clientToTarget ready
  | .target ready => s.targetToClient ready

/-- A run of the tunnel. -/
def run (s : Tunnel) (polls : List Poll) : Tunnel :=
  polls.foldl step s

/-! ### Steps -/

/-- **Everything a step of `client_to_target` can do.** At both selects the teardown comes
first, so every other arm runs while there is none. -/
inductive ClientStep (s : Tunnel) : Tunnel → Prop
  | idle : ClientStep s s
  | tornDown {reason : Teardown} (hat : s.client.atSelect = true)
      (h : s.tornDown = some reason) : ClientStep s (s.clientTornDown reason)
  | received {bytes : List UInt8} (hat : s.client = .reading) (h : s.tornDown = none) :
      ClientStep s { s with client := .writing bytes }
  | fin (hat : s.client = .reading) (h : s.tornDown = none) : ClientStep s s.clientFin
  | aborted (hat : s.client.atSelect = true) (h : s.tornDown = none) :
      ClientStep s s.clientAborted
  | wrote {data : List UInt8} (hat : s.client = .writing data) (h : s.tornDown = none) :
      ClientStep s { s with client := .reading }
  | writeFailed {data : List UInt8} (hat : s.client = .writing data) (h : s.tornDown = none) :
      ClientStep s s.clientWriteFailed
  | stalled {data : List UInt8} (hat : s.client = .writing data) (h : s.tornDown = none)
      (heof : s.targetEof = true) : ClientStep s s.clientStalled
  | shutDown (hat : s.client = .shuttingDown) :
      ClientStep s (clientReturn { s with tcpWrite := .shutDown } .finished)

/-- The list is complete. -/
theorem clientStep (s : Tunnel) (ready : ClientReady) : ClientStep s (s.clientToTarget ready) := by
  rw [clientToTarget]
  split
  · rename_i hat
    rw [clientRead]
    have hselect : s.client.atSelect = true := by rw [hat]; rfl
    split
    · rename_i reason h
      exact .tornDown hselect h
    · rename_i h
      split
      · exact .idle
      · exact .received hat h
      · exact .fin hat h
      · exact .aborted hselect h
  · rename_i data hat
    rw [clientWrite]
    have hselect : s.client.atSelect = true := by rw [hat]; rfl
    split
    · rename_i reason h
      exact .tornDown hselect h
    · rename_i h
      split
      · exact .wrote hat h
      · exact .writeFailed hat h
      · split_ifs with hreset hstalled
        · exact .aborted hselect h
        · rw [Bool.and_eq_true] at hstalled
          exact .stalled hat h hstalled.1
        · exact .idle
  · rename_i hat
    split_ifs
    · exact .shutDown hat
    · exact .idle
  · exact .idle

/-- **Everything a step of `target_to_client` can do.** -/
inductive TargetStep (s : Tunnel) : Tunnel → Prop
  | idle : TargetStep s s
  | tornDown {reason : Teardown} (hat : s.target.atSelect = true)
      (h : s.tornDown = some reason) : TargetStep s (s.targetTornDown reason)
  | received {data : List UInt8} (hat : s.target = .reading) (h : s.tornDown = none) :
      TargetStep s { s with target := .sending data, received := s.received ++ data }
  | fin {finish : Outcome} (hat : s.target = .reading) (h : s.tornDown = none) :
      TargetStep s (s.targetFin finish)
  | readFailed (hat : s.target = .reading) (h : s.tornDown = none) :
      TargetStep s s.targetReadFailed
  | stopped (hat : s.target = .reading) (h : s.tornDown = none) :
      TargetStep s (s.targetStopped .stopped)
  | sent {data : List UInt8} (hat : s.target = .sending data) (h : s.tornDown = none) :
      TargetStep s { s with target := .reading, delivered := s.delivered ++ data }
  | sendFailed {data : List UInt8} (hat : s.target = .sending data) (h : s.tornDown = none) :
      TargetStep s (s.targetStopped .sendFailed)
  | stalled {data : List UInt8} (hat : s.target = .sending data) (h : s.tornDown = none)
      (hfin : s.clientFinished = true) : TargetStep s s.targetStalled

/-- The list is complete. -/
theorem targetStep (s : Tunnel) (ready : TargetReady) : TargetStep s (s.targetToClient ready) := by
  rw [targetToClient]
  split
  · rename_i hat
    rw [targetRead]
    split
    · rename_i reason h
      exact .tornDown (by rw [hat]; rfl) h
    · rename_i h
      split
      · split_ifs
        · exact .fin hat h
        · exact .received hat h
      · exact .readFailed hat h
      · split_ifs
        · exact .stopped hat h
        · exact .idle
  · rename_i data hat
    rw [targetSend]
    split
    · rename_i reason h
      exact .tornDown (by rw [hat]; rfl) h
    · rename_i h
      split
      · exact .sent hat h
      · exact .sendFailed hat h
      · split_ifs with hstalled
        · rw [Bool.and_eq_true] at hstalled
          exact .stalled hat h hstalled.1
        · exact .idle
  · exact .idle

end Tunnel

end Tcp

end Volto
