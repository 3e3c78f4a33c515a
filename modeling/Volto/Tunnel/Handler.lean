import Volto.H3.Failure
import Volto.H3.FrameReader
import Volto.Lib.Asking
import Volto.Tunnel.ProxyStatus
import Volto.Tunnel.Routing

/-!
# Serving a Request

What a connection does with one request stream, from `conn.rs`, `tunnel/mod.rs`, `tunnel/tcp.rs`,
`tunnel/udp.rs` and `h3/stream.rs`: the request is read, screened, authenticated and routed, its
target is looked up, judged and dialled, and the stream is answered. Each function of the source is
a program that asks what it does not know or cannot do itself. Some of the questions go to the peer,
the resolver and the targets, the others to the state that the requests of a connection share.

A timer is a deadline that is part of its question, with an answer of its own for when it has
passed. The relaying itself is one question: the two relays are modelled in modules of their own.

## Main definitions

* `handleRequest`: one request.
* `serve`: the task of a request stream, with the guard that it holds to its end.
-/

namespace Volto

namespace Tunnel

open Policy

namespace Handler

/-- What a request is served with. -/
structure Context where
  auth : Authenticator
  policy : Policy
  /-- `h3::Connection`'s idle timeout, for whatever depends on the peer. -/
  idle : ℕ
  connectTimeout : Option ℕ
  ipFamilyPreference : IpFamilyPreference
  percent : PercentDecoding

/-- What is asked. -/
inductive Question
  | now
  | readRequest (deadline : ℕ)
  | stopReceiving (code : Code)
  | reset (code : Code)
  | finish
  | fail (violation : Violation)
  | respond (answer : Answer) (deadline : ℕ)
  | recordAuthFailure (claim : Option String)
  | close (code : Code)
  /-- `AuthGate::mark`. -/
  | mark
  | admitConfiguredStreams
  /-- The part of `mark_authenticated` under the lock. -/
  | clearFailures (username : Option String)
  | acquire
  /-- The request has become a tunnel that its connection counts. -/
  | countTunnel
  /-- `Stream::datagrams`. -/
  | claimDatagrams
  | lookup (host : List UInt8) (port : UInt16) (deadline : Option ℕ)
  | holdsAddress (ip : IpAddr)
  | connect (address : SocketAddr) (deadline : Option ℕ)
  /-- `net::connected_udp_socket`. -/
  | bind (address : SocketAddr)
  | abortTarget
  | relay (kind : Kind)
  | dropReceiver (i : ℕ)
  | dropSlot
  | dropPending
  /-- The notification at the end of dropping a guard. -/
  | announce

/-- What a question is answered with. `none` is a deadline that has passed. -/
abbrev Question.Reply : Question → Type
  | .now => ℕ
  | .readRequest _ => Option (Except (ReadError Unit) Request)
  | .respond _ _ => Option (Except Unit Unit)
  | .recordAuthFailure _ => Bool
  | .mark => Bool
  | .acquire => Bool
  | .claimDatagrams => Option ℕ
  | .lookup _ _ _ => Option (Except IoError (List SocketAddr))
  | .holdsAddress _ => Bool
  | .connect _ _ => Option (Except IoError Unit)
  | .bind _ => Except IoError Unit
  | _ => Unit

/-- A program of a request task. -/
abbrev Handling : Type → Type :=
  Asking Question Question.Reply

/-- One question. -/
abbrev ask (question : Question) : Handling question.Reply :=
  Asking.question question

/-! ### Answers -/

/-- What became of a response. -/
inductive Responded
  | sent
  | failed
  | expired
deriving DecidableEq, Repr

/-- `respond`: a response that is not taken in time resets the stream. -/
def respond (ctx : Context) (answer : Answer) : Handling Responded := do
  let now ← ask .now
  match ← ask (.respond answer (now + ctx.idle)) with
  | some (.ok ()) => pure .sent
  | some (.error ()) => pure .failed
  | none => do
      ask (.reset .h3RequestCancelled)
      pure .expired

/-- An answer after which the stream is over. -/
def answerAndClose (ctx : Context) (answer : Answer) : Handling Unit := do
  ask (.stopReceiving .h3NoError)
  match ← respond ctx answer with
  | .sent => ask .finish
  | .failed | .expired => pure ()

/-- Refuses a request with a status and fields. -/
def refuseWith (ctx : Context) (status : Status) (fields : Fields) : Handling Unit :=
  answerAndClose ctx ⟨status, fields⟩

/-- Refuses a request with a bare status. -/
def refuse (ctx : Context) (status : Status) : Handling Unit :=
  answerAndClose ctx (.plain status)

/-- Refuses a request for a proxy error. -/
def refuseBecause (ctx : Context) (error : ProxyError) : Handling Unit :=
  answerAndClose ctx (.because error)

/-- Refuses a request whose target was not reached. -/
def refuseUnreachable (ctx : Context) (failure : Unreachable) : Handling Unit :=
  answerAndClose ctx (.unreachable failure)

/-- The 200 of a tunnel that is closed on the spot. -/
def acceptThenClose (ctx : Context) (fields : Fields) : Handling Unit :=
  answerAndClose ctx ⟨.ok, fields⟩

/-! ### The target -/

/-- The end of a budget that starts now. -/
def deadlineAfter : Option ℕ → Handling (Option ℕ)
  | none => pure none
  | some budget => do
      let now ← ask .now
      pure (some (now + budget))

/-- `ConnectionResolver::lookup` within its budget: an address needs no lookup, and a lookup that
gives nothing has failed. -/
def resolveWithin (ctx : Context) (host : List UInt8) (port : UInt16) :
    Handling (Except ResolveFailure (List SocketAddr)) :=
  match literal host port with
  | some address => pure (.ok (preferFamily [address] ctx.ipFamilyPreference))
  | none => do
      let deadline ← deadlineAfter ctx.connectTimeout
      match ← ask (.lookup host port deadline) with
      | none => pure (.error .timedOut)
      | some (.error error) => pure (.error (.failed error))
      | some (.ok []) => pure (.error (.failed ⟨.other, none⟩))
      | some (.ok addresses) => pure (.ok (preferFamily addresses ctx.ipFamilyPreference))

/-- The loopback addresses of either family. -/
def isLoopback : IpAddr → Bool
  | .v4 ip => ip.isLoopback
  | .v6 ip => ip.isLoopback

/-- Whether an address is this host's. Loopback is left to the policy. -/
def isTheProxysOwn (ip : IpAddr) : Handling Bool :=
  if isLoopback (canonical ip) then pure false else ask (.holdsAddress (canonical ip))

/-- The addresses that are not this host's. -/
def retainOthers : List SocketAddr → Handling (List SocketAddr)
  | [] => pure []
  | address :: addresses => do
      let own ← isTheProxysOwn address.ip
      let others ← retainOthers addresses
      pure (if own then others else address :: others)

/-- The addresses of a target that may be dialled, or an answer when there are none. -/
def admitTarget (ctx : Context) (kind : Kind) (host : List UInt8) (port : UInt16) :
    Handling (Option (List SocketAddr)) := do
  if ctx.policy.allowsPort port then do
    match ← resolveWithin ctx host port with
    | .error failure => do
        refuseBecause ctx failure.proxyError
        pure none
    | .ok addresses => do
        let allowed ← retainOthers (ctx.policy.allowedAddresses addresses)
        if allowed = [] then do
          if isDnsBlackhole addresses then acceptThenClose ctx kind.acceptedFields
          else refuseBecause ctx .destinationIpProhibited
          pure none
        else pure (some allowed)
  else do
    refuseBecause ctx .httpRequestDenied
    pure none

/-- The loop of `connect_any_with`: one deadline for all the addresses. -/
def connectAnyWith (deadline : Option ℕ) (last : Option Unreachable) :
    List SocketAddr → Handling (Except Unreachable Unit)
  | [] => pure (.error (last.getD .noAddresses))
  | address :: addresses => do
      match ← ask (.connect address deadline) with
      | none => pure (.error ⟨some address, ⟨.timedOut, none⟩⟩)
      | some (.ok ()) => pure (.ok ())
      | some (.error error) => connectAnyWith deadline (some ⟨some address, error⟩) addresses

/-- Dials the addresses in turn, within the connect timeout. -/
def connectAny (ctx : Context) (addresses : List SocketAddr) :
    Handling (Except Unreachable Unit) := do
  let deadline ← deadlineAfter ctx.connectTimeout
  connectAnyWith deadline none addresses

/-- The loop of `bind_any`. -/
def bindAny (last : Option Unreachable) : List SocketAddr → Handling (Except Unreachable Unit)
  | [] => pure (.error (last.getD .noAddresses))
  | address :: addresses => do
      match ← ask (.bind address) with
      | .ok () => pure (.ok ())
      | .error error => bindAny (some ⟨some address, error⟩) addresses

/-! ### The tunnels -/

/-- `tcp::run`. -/
def runTcp (ctx : Context) (authority : List UInt8) : Handling Unit :=
  match splitAuthority authority with
  | .error _ => refuse ctx .badRequest
  | .ok (host, port) => do
      match ← admitTarget ctx .tcp host (.ofNat port) with
      | none => pure ()
      | some allowed => do
          match ← connectAny ctx allowed with
          | .error failure => refuseUnreachable ctx failure
          | .ok () => do
              match ← respond ctx ⟨.ok, Kind.tcp.acceptedFields⟩ with
              | .sent => ask (.relay .tcp)
              | .failed | .expired => ask .abortTarget

/-- What `udp::run` does once it has claimed the datagrams of its stream. -/
def runClaimed (ctx : Context) (host : List UInt8) (port : UInt16) : Handling Unit := do
  match ← admitTarget ctx .udp host port with
  | none => pure ()
  | some allowed => do
      match ← bindAny none allowed with
      | .error failure => refuseUnreachable ctx failure
      | .ok () => do
          match ← respond ctx ⟨.ok, Kind.udp.acceptedFields⟩ with
          | .sent => ask (.relay .udp)
          | .failed | .expired => pure ()

/-- `udp::run`. The receiver is dropped however the session ends. -/
def runUdp (ctx : Context) (req : Request) : Handling Unit :=
  match validate req with
  | .error _ => refuse ctx .badRequest
  | .ok () =>
      match parseTarget ctx.percent (req.path.getD []) req.query with
      | .error _ => refuse ctx .badRequest
      | .ok (host, port) => do
          match ← ask .claimDatagrams with
          | none => refuse ctx .internalServerError
          | some inbound => do
              runClaimed ctx host (.ofNat port)
              ask (.dropReceiver inbound)

/-! ### The request -/

/-- `Resolver::resolve`: a request that is not read has been answered or reset. -/
def resolve (ctx : Context) : Handling (Option Request) := do
  let now ← ask .now
  match ← ask (.readRequest (now + ctx.idle)) with
  | some (.ok request) => pure (some request)
  | some (.error (.transport _)) => pure none
  | some (.error (.violation violation)) => do
      if violation.isFieldSectionTooLarge && !violation.isConnectionError then do
        ask (.stopReceiving violation.code)
        match ← respond ctx (.plain .requestHeaderFieldsTooLarge) with
        | .sent => ask .finish
        | .failed | .expired => pure ()
      else if violation.isConnectionError then ask (.fail violation)
      else do
        ask (.reset violation.code)
        ask (.stopReceiving violation.code)
      pure none
  | none => do
      ask (.reset .h3RequestIncomplete)
      ask (.stopReceiving .h3RequestIncomplete)
      pure none

/-- Opens the gate on the first success, and clears the failures it answers for. -/
def markAuthenticated (username : Option String) : Handling Unit := do
  if ← ask .mark then ask .admitConfiguredStreams
  ask (.clearFailures username)

/-- Charges every refused value, and says whether one of them was one too many. -/
def recordAuthFailures : List (Option String) → Handling Bool
  | [] => pure false
  | claim :: claims => do
      let spent ← ask (.recordAuthFailure claim)
      let more ← recordAuthFailures claims
      pure (spent || more)

/-- The tunnel of a request that holds a slot. -/
def runTunnel (ctx : Context) (req : Request) : Handling Unit :=
  match route req with
  | .tcp =>
      match req.authority with
      | some authority => runTcp ctx authority
      | none => refuse ctx .badRequest
  | .connectUdp => runUdp ctx req
  | .unsupportedProtocol _ => refuse ctx .notImplemented
  | .notConnect => refuse ctx .notImplemented

/-- A request that has got past its credentials. -/
def handleAdmitted (ctx : Context) (req : Request) : Handling Unit := do
  if ← ask .acquire then do
    ask .countTunnel
    runTunnel ctx req
    ask .dropSlot
    ask .announce
  else refuseBecause ctx .connectionLimitReached

/-- A request that has been read. -/
def handleResolved (ctx : Context) (req : Request) : Handling Unit :=
  if (connectionSpecificField req).isSome then refuse ctx .badRequest
  else if maxCredentialValues < credentialValues req.fields then refuse ctx .badRequest
  else
    match ctx.auth.authenticate req.fields with
    | .ok username => do
        markAuthenticated username
        handleAdmitted ctx req
    | .error denials => do
        if ← recordAuthFailures denials.claims then ask (.close authFailureLimitCode)
        else refuseWith ctx .proxyAuthenticationRequired challengeFields

/-- The handler of one request stream, from its first byte. -/
def handleRequest (ctx : Context) : Handling Unit := do
  match ← resolve ctx with
  | none => pure ()
  | some req => handleResolved ctx req

/-- The task of a request stream. -/
def serve (ctx : Context) : Handling Unit := do
  handleRequest ctx
  ask .dropPending
  ask .announce

end Handler

end Tunnel

end Volto
