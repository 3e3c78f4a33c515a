import Volto.Lib.History
import Volto.Tunnel.Tcp

/-!
# How a TCP Tunnel Ends

The place of each pump says everything about the tunnel: what its own half carries, what it
raised on the teardown channel, and whether it armed an abortive close. `Inv` states this, and
`Placed` which places the two pumps can be in together: at most one of them raises a teardown,
and a pump that was torn down was torn down for what the other one raised.

## Main results

* `Tunnel.Inv.run`: the invariant holds in every run.
* `Tunnel.caused_run`: the exits of a run are those of its events.
* `Tunnel.agreed_run`: the two halves carry one verdict.
-/

namespace Volto

namespace Tcp

open History

/-! ### What a place says -/

/-- What an exit of `client_to_target` raises. -/
def ClientExit.raises : ClientExit → Option Teardown
  | .writeFailed | .stalled => some .targetError
  | .aborted => some .clientAbort
  | .tornDown _ | .finished => none

/-- What `client_to_target` has raised. -/
def ClientPump.raises : ClientPump → Option Teardown
  | .returned exit => exit.raises
  | _ => none

/-- Whether `client_to_target` has armed an abortive close. -/
def ClientPump.aborts : ClientPump → Bool
  | .returned .aborted | .returned .stalled => true
  | _ => false

/-- Whether `client_to_target` has met the client's FIN. -/
def ClientPump.finished : ClientPump → Bool
  | .shuttingDown | .returned .finished => true
  | _ => false

/-- What the request half carries. -/
def ClientPump.request : ClientPump → Request
  | .reading | .writing _ => .live
  | .shuttingDown | .returned .finished => .finished
  | .returned .aborted => .failed
  | .returned .writeFailed | .returned .stalled => .stopped .h3ConnectError
  | .returned (.tornDown reason) => .stopped reason.code

/-- What an exit of `target_to_client` raises. -/
def TargetExit.raises : TargetExit → Option Teardown
  | .readFailed => some .targetError
  | .stopped | .sendFailed | .stalled => some .clientAbort
  | .tornDown _ | .eof => none

/-- What `target_to_client` has raised. -/
def TargetPump.raises : TargetPump → Option Teardown
  | .returned exit => exit.raises
  | _ => none

/-- Whether `target_to_client` has armed an abortive close. -/
def TargetPump.aborts : TargetPump → Bool
  | .returned .stopped | .returned .sendFailed | .returned .stalled => true
  | _ => false

/-- What the response half can carry. -/
def TargetPump.Leaves (response : Response) : TargetPump → Prop
  | .reading | .sending _ => response = .live
  | .returned .eof => response = .finished ∨ response = .failed
  | .returned .stopped | .returned .sendFailed => response = .failed
  | .returned .readFailed => response = .reset .h3ConnectError
  | .returned .stalled => response = .reset .h3RequestCancelled
  | .returned (.tornDown reason) => response = .reset reason.code

/-- What has been read from the target against what a completed send took. -/
def TargetPump.Relayed (received delivered : List UInt8) : TargetPump → Prop
  | .reading | .returned .eof => received = delivered
  | .sending data => received = delivered ++ data
  | .returned _ => True

/-- Where the two pumps can be together. -/
structure Placed (client : ClientPump) (target : TargetPump) : Prop where
  once : client.raises = none ∨ target.raises = none
  clientTorn : ∀ reason, client = .returned (.tornDown reason) → target.raises = some reason
  targetTorn : ∀ reason, target = .returned (.tornDown reason) → client.raises = some reason
  clientStalled : client = .returned .stalled → target = .returned .eof
  targetStalled : target = .returned .stalled → client.finished = true

/-- `Running` is never raised. -/
theorem ClientPump.raises_ne (client : ClientPump) : client.raises ≠ some .running := by
  rcases client with _ | _ | _ | (_ | _ | _ | _ | _) <;>
    simp [ClientPump.raises, ClientExit.raises]

/-- A running tunnel is no reason for tearing one down. -/
theorem TargetPump.raises_ne (target : TargetPump) : target.raises ≠ some .running := by
  rcases target with _ | _ | (_ | _ | _ | _ | _ | _) <;>
    simp [TargetPump.raises, TargetExit.raises]

/-- At a select `client_to_target` has done nothing yet. -/
theorem ClientPump.of_atSelect (client : ClientPump) (hat : client.atSelect = true) :
    client.raises = none ∧ client.aborts = false ∧ client.finished = false ∧
      client.request = .live := by
  cases client with
  | reading => exact ⟨rfl, rfl, rfl, rfl⟩
  | writing data => exact ⟨rfl, rfl, rfl, rfl⟩
  | shuttingDown => cases hat
  | returned exit => cases hat

/-- A target pump still at its select has raised, aborted and ended nothing. -/
theorem TargetPump.of_atSelect (target : TargetPump) (hat : target.atSelect = true) :
    target.raises = none ∧ target.aborts = false ∧
      ∀ response, target.Leaves response → response = .live := by
  cases target with
  | reading => exact ⟨rfl, rfl, fun _ h => h⟩
  | sending data => exact ⟨rfl, rfl, fun _ h => h⟩
  | returned exit => cases hat

/-- The client's pump raises a target error exactly after a failed or stalled write. -/
theorem ClientPump.raises_targetError (client : ClientPump) :
    client.raises = some .targetError ↔
      client = .returned .writeFailed ∨ client = .returned .stalled := by
  rcases client with _ | _ | _ | (_ | _ | _ | _ | _) <;>
    simp [ClientPump.raises, ClientExit.raises]

/-- The client's pump raises a client abort exactly after the client reset its body. -/
theorem ClientPump.raises_clientAbort (client : ClientPump) :
    client.raises = some .clientAbort ↔ client = .returned .aborted := by
  rcases client with _ | _ | _ | (_ | _ | _ | _ | _) <;>
    simp [ClientPump.raises, ClientExit.raises]

/-- The client's pump aborts the stream exactly after a reset or a stall. -/
theorem ClientPump.aborts_iff (client : ClientPump) :
    client.aborts = true ↔ client = .returned .aborted ∨ client = .returned .stalled := by
  rcases client with _ | _ | _ | (_ | _ | _ | _ | _) <;> simp [ClientPump.aborts]

/-- The target's pump raises a target error exactly after a failed read. -/
theorem TargetPump.raises_targetError (target : TargetPump) :
    target.raises = some .targetError ↔ target = .returned .readFailed := by
  rcases target with _ | _ | (_ | _ | _ | _ | _ | _) <;>
    simp [TargetPump.raises, TargetExit.raises]

/-- The target's pump raises a client abort exactly after a send that was stopped, failed or
stalled. -/
theorem TargetPump.raises_clientAbort (target : TargetPump) :
    target.raises = some .clientAbort ↔ target = .returned .stopped ∨
      target = .returned .sendFailed ∨ target = .returned .stalled := by
  rcases target with _ | _ | (_ | _ | _ | _ | _ | _) <;>
    simp [TargetPump.raises, TargetExit.raises]

/-- The target's pump aborts the stream exactly where it raises a client abort. -/
theorem TargetPump.aborts_iff (target : TargetPump) :
    target.aborts = true ↔ target = .returned .stopped ∨ target = .returned .sendFailed ∨
      target = .returned .stalled := by
  rcases target with _ | _ | (_ | _ | _ | _ | _ | _) <;> simp [TargetPump.aborts]

/-- An abortive close is armed only together with a teardown. -/
theorem ClientPump.aborts_of_raises (client : ClientPump) (h : client.raises = none) :
    client.aborts = false := by
  rcases client with _ | _ | _ | (_ | _ | _ | _ | _) <;> first | rfl | cases h

/-- A target pump that raised nothing aborts nothing. -/
theorem TargetPump.aborts_of_raises (target : TargetPump) (h : target.raises = none) :
    target.aborts = false := by
  rcases target with _ | _ | (_ | _ | _ | _ | _ | _) <;> first | rfl | cases h

/-- While nothing has been raised `client_to_target` may go anywhere, but for the exits that
answer the other pump. -/
theorem Placed.client_quiet {client client' : ClientPump} {target : TargetPump}
    (h : Placed client target) (hclient : client.raises = none) (htarget : target.raises = none)
    (htorn : ∀ reason, client' ≠ .returned (.tornDown reason))
    (hstalled : client' = .returned .stalled → target = .returned .eof) :
    Placed client' target where
  once := Or.inr htarget
  clientTorn reason heq := absurd heq (htorn reason)
  targetTorn reason heq := by
    have hraised := h.targetTorn reason heq
    rw [hclient] at hraised
    cases hraised
  clientStalled := hstalled
  targetStalled heq := by
    subst heq
    cases htarget

/-- The target's pump may move while neither side has raised anything. -/
theorem Placed.target_quiet {client : ClientPump} {target target' : TargetPump}
    (h : Placed client target) (hclient : client.raises = none) (htarget : target.raises = none)
    (htorn : ∀ reason, target' ≠ .returned (.tornDown reason))
    (hstalled : target' = .returned .stalled → client.finished = true) :
    Placed client target' where
  once := Or.inl hclient
  clientTorn reason heq := by
    have hraised := h.clientTorn reason heq
    rw [htarget] at hraised
    cases hraised
  targetTorn reason heq := absurd heq (htorn reason)
  clientStalled heq := by
    subst heq
    cases hclient
  targetStalled := hstalled

/-- The client's pump gives way to what the target's pump raised. -/
theorem Placed.client_tornDown {client : ClientPump} {target : TargetPump} {reason : Teardown}
    (h : Placed client target) (hat : client.atSelect = true)
    (hraised : target.raises = some reason) :
    Placed (.returned (.tornDown reason)) target where
  once := Or.inl rfl
  clientTorn reason' heq := by
    cases heq
    exact hraised
  targetTorn reason' heq := by
    subst heq
    cases hraised
  clientStalled heq := by cases heq
  targetStalled heq := by
    have hfinished := h.targetStalled heq
    rw [(client.of_atSelect hat).2.2.1] at hfinished
    cases hfinished

/-- The target's pump gives way to what the client's pump raised. -/
theorem Placed.target_tornDown {client : ClientPump} {target : TargetPump} {reason : Teardown}
    (h : Placed client target) (hat : target.atSelect = true)
    (hraised : client.raises = some reason) :
    Placed client (.returned (.tornDown reason)) where
  once := Or.inr rfl
  clientTorn reason' heq := by
    subst heq
    cases hraised
  targetTorn reason' heq := by
    cases heq
    exact hraised
  clientStalled heq := by
    rw [h.clientStalled heq] at hat
    cases hat
  targetStalled heq := by cases heq

/-- The client's pump returns once its half is shut down. -/
theorem Placed.shutDown {target : TargetPump} (h : Placed .shuttingDown target) :
    Placed (.returned .finished) target where
  once := Or.inl rfl
  clientTorn reason heq := by cases heq
  targetTorn reason heq := h.targetTorn reason heq
  clientStalled heq := by cases heq
  targetStalled _ := rfl

namespace Tunnel

/-- **What holds in every run.** -/
structure Inv (s : Tunnel) : Prop where
  request : s.request = s.client.request
  clientFinished : s.clientFinished = s.client.finished
  response : s.target.Leaves s.response
  targetEof : s.targetEof = true → s.target = .returned .eof
  relayed : s.target.Relayed s.received s.delivered
  sent : s.sent = (s.client.raises.or s.target.raises).toList
  teardown : s.teardown = (s.client.raises.or s.target.raises).getD .running
  armed : s.armed = (s.client.aborts || s.target.aborts)
  placed : Placed s.client s.target

/-- The invariant holds before the first poll. -/
theorem inv_start : Inv start where
  request := rfl
  clientFinished := rfl
  response := rfl
  targetEof h := by cases h
  relayed := rfl
  sent := rfl
  teardown := rfl
  armed := rfl
  placed := by
    refine ⟨Or.inl rfl, ?_, ?_, ?_, ?_⟩ <;> intros <;> contradiction

/-! ### Steps -/

variable {s s' : Tunnel} {reason : Teardown}

/-- Without a teardown nothing has been raised. -/
theorem Inv.quiet (h : Inv s) (hnone : s.tornDown = none) :
    s.client.raises = none ∧ s.target.raises = none := by
  have hrunning : s.teardown = .running := by
    rw [tornDown] at hnone
    split_ifs at hnone with heq
    exact heq
  have hraised := h.teardown
  rw [hrunning] at hraised
  cases hclient : s.client.raises with
  | some reason =>
      rw [hclient] at hraised
      have hreason : reason = .running := hraised.symm
      subst hreason
      exact absurd hclient s.client.raises_ne
  | none =>
      cases htarget : s.target.raises with
      | some reason =>
          rw [hclient, htarget] at hraised
          have hreason : reason = .running := hraised.symm
          subst hreason
          exact absurd htarget s.target.raises_ne
      | none => exact ⟨rfl, rfl⟩

/-- A teardown is what one of the pumps raised. -/
theorem Inv.raised (h : Inv s) (hsome : s.tornDown = some reason) :
    s.client.raises.or s.target.raises = some reason := by
  rw [tornDown] at hsome
  split_ifs at hsome with hrunning
  rw [Option.some.injEq] at hsome
  subst hsome
  have hraised := h.teardown
  cases hor : s.client.raises.or s.target.raises with
  | some reason => rw [hraised, hor, Option.getD_some]
  | none =>
      rw [hor] at hraised
      exact absurd hraised hrunning

/-- What a pump finds at a select without a teardown: nothing has been sent or armed. -/
theorem Inv.quiet_fields (h : Inv s) (hnone : s.tornDown = none) :
    s.sent = [] ∧ s.teardown = .running ∧ s.armed = false := by
  obtain ⟨hclient, htarget⟩ := h.quiet hnone
  have hsent := h.sent
  have hteardown := h.teardown
  have harmed := h.armed
  rw [hclient, htarget] at hsent hteardown
  rw [s.client.aborts_of_raises hclient, s.target.aborts_of_raises htarget] at harmed
  exact ⟨hsent, hteardown, harmed⟩

/-- `client_to_target` goes on without an ending that the other pump has to hear of. -/
theorem Inv.client_quiet (h : Inv s) (hnone : s.tornDown = none) (client : ClientPump)
    {request : Request} {clientFinished : Bool} (hrequest : request = client.request)
    (hfinished : clientFinished = client.finished) (hraises : client.raises = none)
    (htorn : ∀ reason, client ≠ .returned (.tornDown reason)) :
    Inv { s with client := client, request := request, clientFinished := clientFinished } := by
  obtain ⟨hclient, htarget⟩ := h.quiet hnone
  have hsent := h.sent
  have hteardown := h.teardown
  have harmed := h.armed
  rw [hclient, ← hraises] at hsent hteardown
  rw [s.client.aborts_of_raises hclient, ← client.aborts_of_raises hraises] at harmed
  have hstalled : client = .returned .stalled → s.target = .returned .eof := by
    rintro rfl
    cases hraises
  exact { h with
    request := hrequest, clientFinished := hfinished, sent := hsent, teardown := hteardown
    armed := harmed, placed := h.placed.client_quiet hclient htarget htorn hstalled }

/-- `client_to_target` ends with a teardown. -/
theorem Inv.client_raise (h : Inv s) (hnone : s.tornDown = none) (hat : s.client.atSelect = true)
    (exit : ClientExit) {request : Request} {tcpWrite : TcpWrite} {armed : Bool}
    (hraises : exit.raises = some reason) (hrequest : request = (ClientPump.returned exit).request)
    (harmed : armed = (ClientPump.returned exit).aborts)
    (hstalled : exit = .stalled → s.targetEof = true) :
    Inv { s with
      client := .returned exit, request := request, tcpWrite := tcpWrite, teardown := reason
      sent := s.sent ++ [reason], armed := armed } := by
  obtain ⟨hclient, htarget⟩ := h.quiet hnone
  obtain ⟨hsent, -, -⟩ := h.quiet_fields hnone
  have hraised : (ClientPump.returned exit).raises = some reason := hraises
  have hfinished : (ClientPump.returned exit).finished = false := by
    cases exit with
    | finished => cases hraises
    | _ => rfl
  have hplaced : Placed (.returned exit) s.target := by
    refine h.placed.client_quiet hclient htarget ?_ ?_
    · rintro reason' heq
      cases heq
      cases hraises
    · rintro heq
      cases heq
      exact h.targetEof (hstalled rfl)
  exact { h with
    request := hrequest
    clientFinished :=
      (h.clientFinished.trans (s.client.of_atSelect hat).2.2.1).trans hfinished.symm
    sent := by rw [hraised, hsent]; rfl
    teardown := by rw [hraised]; rfl
    armed := by rw [harmed, s.target.aborts_of_raises htarget, Bool.or_false]
    placed := hplaced }

/-- **A step of `client_to_target` keeps the invariant.** -/
theorem Inv.clientStep (h : Inv s) (hstep : ClientStep s s') : Inv s' := by
  cases hstep with
  | idle => exact h
  | @tornDown reason hat hsome =>
      obtain ⟨hraises, haborts, hfinished, hrequest⟩ := s.client.of_atSelect hat
      have hraised := h.raised hsome
      have hsent := h.sent
      have hteardown := h.teardown
      have harmed := h.armed
      rw [hraises] at hraised hsent hteardown
      rw [haborts] at harmed
      exact { h with
        request := congrArg (fun r => (r.stop reason.code).drop) (h.request.trans hrequest)
        clientFinished := h.clientFinished.trans hfinished
        sent := hsent, teardown := hteardown, armed := harmed
        placed := h.placed.client_tornDown hat hraised }
  | @received bytes hat hnone =>
      refine h.client_quiet hnone (.writing bytes) ?_ ?_ rfl (by simp)
      · rw [h.request, hat]
        rfl
      · rw [h.clientFinished, hat]
        rfl
  | fin hat hnone => exact h.client_quiet hnone .shuttingDown rfl rfl rfl (by simp)
  | wrote hat hnone =>
      refine h.client_quiet hnone .reading ?_ ?_ rfl (by simp)
      · rw [h.request, hat]
        rfl
      · rw [h.clientFinished, hat]
        rfl
  | aborted hat hnone => exact h.client_raise hnone hat .aborted rfl rfl rfl (by simp)
  | writeFailed hat hnone =>
      have hrequest : s.request = .live := by rw [h.request, hat]; rfl
      have harmed := (h.quiet_fields hnone).2.2
      refine h.client_raise hnone (by rw [hat]; rfl) .writeFailed rfl ?_ harmed (by simp)
      exact congrArg (fun r => (r.stop .h3ConnectError).drop) hrequest
  | stalled hat hnone heof =>
      have hrequest : s.request = .live := by rw [h.request, hat]; rfl
      refine h.client_raise hnone (by rw [hat]; rfl) .stalled rfl ?_ rfl fun _ => heof
      exact congrArg (fun r => (r.stop .h3ConnectError).drop) hrequest
  | shutDown hat =>
      have hplaced := h.placed
      have hsent := h.sent
      have hteardown := h.teardown
      have harmed := h.armed
      have hrequest : s.request = .finished := by rw [h.request, hat]; rfl
      have hfinished : s.clientFinished = true := by rw [h.clientFinished, hat]; rfl
      rw [hat] at hplaced hsent hteardown harmed
      exact { h with
        request := congrArg Request.drop hrequest
        clientFinished := hfinished
        sent := hsent, teardown := hteardown, armed := harmed, placed := hplaced.shutDown }

/-- `target_to_client` goes on without an ending that the other pump has to hear of. -/
theorem Inv.target_quiet (h : Inv s) (hnone : s.tornDown = none) (target : TargetPump)
    {response : Response} {targetEof : Bool} {received delivered : List UInt8}
    (hresponse : target.Leaves response) (heof : targetEof = true → target = .returned .eof)
    (hrelayed : target.Relayed received delivered) (hraises : target.raises = none)
    (htorn : ∀ reason, target ≠ .returned (.tornDown reason)) :
    Inv { s with
      target := target, response := response, targetEof := targetEof, received := received
      delivered := delivered } := by
  obtain ⟨hclient, htarget⟩ := h.quiet hnone
  have hsent := h.sent
  have hteardown := h.teardown
  have harmed := h.armed
  rw [htarget, ← hraises] at hsent hteardown
  rw [s.target.aborts_of_raises htarget, ← target.aborts_of_raises hraises] at harmed
  have hstalled : target = .returned .stalled → s.client.finished = true := by
    rintro rfl
    cases hraises
  exact { h with
    response := hresponse, targetEof := heof, relayed := hrelayed, sent := hsent
    teardown := hteardown, armed := harmed
    placed := h.placed.target_quiet hclient htarget htorn hstalled }

/-- `target_to_client` ends with a teardown. -/
theorem Inv.target_raise (h : Inv s) (hnone : s.tornDown = none) (hat : s.target.atSelect = true)
    (exit : TargetExit) {response : Response} {armed : Bool}
    (hraises : exit.raises = some reason)
    (hresponse : (TargetPump.returned exit).Leaves response)
    (harmed : armed = (TargetPump.returned exit).aborts)
    (hstalled : exit = .stalled → s.clientFinished = true) :
    Inv { s with
      target := .returned exit, response := response, teardown := reason
      sent := s.sent ++ [reason], armed := armed } := by
  obtain ⟨hclient, htarget⟩ := h.quiet hnone
  obtain ⟨hsent, -, -⟩ := h.quiet_fields hnone
  have hraised : (TargetPump.returned exit).raises = some reason := hraises
  have hplaced : Placed s.client (.returned exit) := by
    refine h.placed.target_quiet hclient htarget ?_ ?_
    · rintro reason' heq
      cases heq
      cases hraises
    · rintro heq
      cases heq
      exact h.clientFinished.symm.trans (hstalled rfl)
  have hrelayed : (TargetPump.returned exit).Relayed s.received s.delivered := by
    cases exit with
    | eof => cases hraises
    | _ => trivial
  exact { h with
    response := hresponse
    targetEof := by
      intro heof
      rw [h.targetEof heof] at hat
      cases hat
    relayed := hrelayed
    sent := by rw [hclient, hraised, hsent]; rfl
    teardown := by rw [hclient, hraised]; rfl
    armed := by rw [harmed, s.client.aborts_of_raises hclient, Bool.false_or]
    placed := hplaced }

/-- **A step of `target_to_client` keeps the invariant.** -/
theorem Inv.targetStep (h : Inv s) (hstep : TargetStep s s') : Inv s' := by
  cases hstep with
  | idle => exact h
  | @tornDown reason hat hsome =>
      obtain ⟨hraises, haborts, hleaves⟩ := s.target.of_atSelect hat
      have hlive := hleaves _ h.response
      have hraised := h.raised hsome
      have hsent := h.sent
      have hteardown := h.teardown
      have harmed := h.armed
      rw [hraises, Option.or_none] at hraised
      rw [hraises] at hsent hteardown
      rw [haborts] at harmed
      have hresponse : (s.response.abandon reason.code).drop = .reset reason.code := by
        rw [hlive]
        rfl
      exact { h with
        response := hresponse
        targetEof := by
          intro heof
          rw [h.targetEof heof] at hat
          cases hat
        relayed := trivial
        sent := hsent, teardown := hteardown, armed := harmed
        placed := h.placed.target_tornDown hat hraised }
  | @received data hat hnone =>
      have hrelayed := h.relayed
      have hresponse := h.response
      rw [hat] at hrelayed hresponse
      refine h.target_quiet hnone (.sending data) hresponse ?_ ?_ rfl (by simp)
      · intro heof
        rw [h.targetEof heof] at hat
        cases hat
      · exact congrArg (· ++ data) hrelayed
  | @fin finish hat hnone =>
      have hrelayed := h.relayed
      rw [hat] at hrelayed
      refine h.target_quiet hnone (.returned .eof) ?_ (fun _ => rfl) hrelayed rfl (by simp)
      cases finish with
      | ok => exact Or.inl rfl
      | error => exact Or.inr rfl
  | @sent data hat hnone =>
      have hrelayed := h.relayed
      have hresponse := h.response
      rw [hat] at hrelayed hresponse
      refine h.target_quiet hnone .reading hresponse ?_ hrelayed rfl (by simp)
      intro heof
      rw [h.targetEof heof] at hat
      cases hat
  | readFailed hat hnone =>
      have hresponse := h.response
      rw [hat] at hresponse
      have harmed := (h.quiet_fields hnone).2.2
      refine h.target_raise hnone (by rw [hat]; rfl) .readFailed rfl ?_ harmed (by simp)
      exact congrArg (fun r => (r.abandon .h3ConnectError).drop) hresponse
  | stopped hat hnone =>
      exact h.target_raise hnone (by rw [hat]; rfl) .stopped rfl rfl rfl (by simp)
  | sendFailed hat hnone =>
      exact h.target_raise hnone (by rw [hat]; rfl) .sendFailed rfl rfl rfl (by simp)
  | stalled hat hnone hfin =>
      have hresponse := h.response
      rw [hat] at hresponse
      refine h.target_raise hnone (by rw [hat]; rfl) .stalled rfl ?_ rfl fun _ => hfin
      exact congrArg (fun r => (r.abandon .h3RequestCancelled).drop) hresponse

/-- **Step lemma**: a poll of either pump keeps the invariant. -/
theorem Inv.step (h : Inv s) (poll : Poll) : Inv (s.step poll) := by
  cases poll with
  | client ready => exact h.clientStep (s.clientStep ready)
  | target ready => exact h.targetStep (s.targetStep ready)

/-- **The invariant holds in every run.** -/
theorem Inv.run (h : Inv s) (polls : List Poll) : Inv (s.run polls) :=
  History.run_invariant (fun _ poll hinv => hinv.step poll) h polls

/-! ### The other half -/

/-- `client_to_target` leaves the response alone and takes nothing back. -/
theorem ClientStep.frame (hstep : ClientStep s s') :
    s'.response = s.response ∧ s.sent ⊆ s'.sent := by
  cases hstep with
  | aborted | writeFailed | stalled => exact ⟨rfl, List.subset_append_left _ _⟩
  | _ => exact ⟨rfl, List.Subset.refl _⟩

/-- The target's pump leaves the request body, and takes back no reason that was sent. -/
theorem TargetStep.frame (hstep : TargetStep s s') :
    s'.request = s.request ∧ s.sent ⊆ s'.sent := by
  cases hstep with
  | readFailed | stopped | sendFailed | stalled => exact ⟨rfl, List.subset_append_left _ _⟩
  | _ => exact ⟨rfl, List.Subset.refl _⟩

/-- What was sent is what a pump at a select meets. -/
theorem Inv.tornDown_of_mem (h : Inv s) (hmem : reason ∈ s.sent) : s.tornDown = some reason := by
  have hraised : s.client.raises.or s.target.raises = some reason := by
    rw [h.sent, Option.mem_toList] at hmem
    exact hmem
  have hteardown := h.teardown
  rw [hraised, Option.getD_some] at hteardown
  have hne : reason ≠ .running := by
    rintro rfl
    rcases Option.or_eq_some_iff.mp hraised with hclient | ⟨-, htarget⟩
    · exact s.client.raises_ne hclient
    · exact s.target.raises_ne htarget
  rw [tornDown, hteardown, if_neg hne]

/-- A request half that is open is told at the next step of its pump. -/
theorem Inv.request_told (h : Inv s) (hmem : reason ∈ s.sent) (hlive : s.request = .live)
    (ready : ClientReady) : (s.clientToTarget ready).request = .stopped reason.code := by
  have htorn := h.tornDown_of_mem hmem
  have hrequest : (s.clientTornDown reason).request = .stopped reason.code :=
    congrArg (fun r => (r.stop reason.code).drop) hlive
  have hplace := h.request
  rw [hlive] at hplace
  rw [clientToTarget]
  split
  · rw [clientRead, htorn]
    exact hrequest
  · rw [clientWrite, htorn]
    exact hrequest
  · rename_i hat
    rw [hat] at hplace
    cases hplace
  · rename_i exit hat
    rw [hat] at hplace
    cases exit <;> cases hplace

/-- A request half that is over stays as it is. -/
theorem Inv.request_over (h : Inv s) (hlive : s.request ≠ .live) (ready : ClientReady) :
    (s.clientToTarget ready).request = s.request := by
  have hplace := h.request
  rw [clientToTarget]
  split
  · rename_i hat
    rw [hat] at hplace
    exact absurd hplace hlive
  · rename_i hat
    rw [hat] at hplace
    exact absurd hplace hlive
  · rename_i hat
    rw [hat] at hplace
    split_ifs
    · exact (congrArg Request.drop hplace).trans hplace.symm
    · rfl
  · rfl

/-- A response that is open is told at the next step of its pump. -/
theorem Inv.response_told (h : Inv s) (hmem : reason ∈ s.sent) (hlive : s.response = .live)
    (ready : TargetReady) : (s.targetToClient ready).response = .reset reason.code := by
  have htorn := h.tornDown_of_mem hmem
  have hresponse : (s.targetTornDown reason).response = .reset reason.code :=
    congrArg (fun r => (r.abandon reason.code).drop) hlive
  have hplace := h.response
  rw [hlive] at hplace
  rw [targetToClient]
  split
  · rw [targetRead, htorn]
    exact hresponse
  · rw [targetSend, htorn]
    exact hresponse
  · rename_i exit hat
    rw [hat] at hplace
    cases exit <;> simp [TargetPump.Leaves] at hplace

/-- A response that is over stays as it is. -/
theorem Inv.response_over (h : Inv s) (hlive : s.response ≠ .live) (ready : TargetReady) :
    (s.targetToClient ready).response = s.response := by
  have hplace := h.response
  rw [targetToClient]
  split
  · rename_i hat
    rw [hat] at hplace
    exact absurd hplace hlive
  · rename_i hat
    rw [hat] at hplace
    exact absurd hplace hlive
  · rfl

/-- A request half that is over is over for good. -/
theorem Inv.request_stays (h : Inv s) (hlive : s.request ≠ .live) (polls : List Poll) :
    (s.run polls).request = s.request := by
  induction polls generalizing s with
  | nil => rfl
  | cons poll polls ih =>
      have hsame : (s.step poll).request = s.request := by
        cases poll with
        | client ready => exact h.request_over hlive ready
        | target ready => exact (s.targetStep ready).frame.1
      exact (ih (h.step poll) (hsame ▸ hlive)).trans hsame

/-- A response that is over is over for good. -/
theorem Inv.response_stays (h : Inv s) (hlive : s.response ≠ .live) (polls : List Poll) :
    (s.run polls).response = s.response := by
  induction polls generalizing s with
  | nil => rfl
  | cons poll polls ih =>
      have hsame : (s.step poll).response = s.response := by
        cases poll with
        | client ready => exact (s.clientStep ready).frame.1
        | target ready => exact h.response_over hlive ready
      exact (ih (h.step poll) (hsame ▸ hlive)).trans hsame

/-- **An open request half is told of a teardown**, as soon as its pump runs and for good. -/
theorem Inv.request_run (h : Inv s) (hmem : reason ∈ s.sent) (hlive : s.request = .live)
    {polls : List Poll} (hpolled : ∃ ready, Poll.client ready ∈ polls) :
    (s.run polls).request = .stopped reason.code := by
  induction polls generalizing s with
  | nil =>
      obtain ⟨ready, hready⟩ := hpolled
      cases hready
  | cons poll polls ih =>
      cases poll with
      | client ready =>
          have htold := h.request_told hmem hlive ready
          have hinv := h.clientStep (s.clientStep ready)
          exact (hinv.request_stays (htold.trans_ne nofun) polls).trans htold
      | target ready =>
          have hstep := s.targetStep ready
          refine ih (h.targetStep hstep) (hstep.frame.2 hmem) (hstep.frame.1.trans hlive) ?_
          simpa using hpolled

/-- **An open response is told of a teardown**, as soon as its pump runs and for good. -/
theorem Inv.response_run (h : Inv s) (hmem : reason ∈ s.sent) (hlive : s.response = .live)
    {polls : List Poll} (hpolled : ∃ ready, Poll.target ready ∈ polls) :
    (s.run polls).response = .reset reason.code := by
  induction polls generalizing s with
  | nil =>
      obtain ⟨ready, hready⟩ := hpolled
      cases hready
  | cons poll polls ih =>
      cases poll with
      | target ready =>
          have htold := h.response_told hmem hlive ready
          have hinv := h.targetStep (s.targetStep ready)
          exact (hinv.response_stays (htold.trans_ne nofun) polls).trans htold
      | client ready =>
          have hstep := s.clientStep ready
          refine ih (h.clientStep hstep) (hstep.frame.2 hmem) (hstep.frame.1.trans hlive) ?_
          simpa using hpolled

/-! ### The verdict -/

/-- **The two pumps agree on how the tunnel ended.** -/
structure Agreed (s : Tunnel) : Prop where
  /-- At most one teardown is ever sent, and `Running` never is. -/
  once : s.sent.length ≤ 1 ∧ Teardown.running ∉ s.sent
  /-- What counts as a target error: a failed read or write, or a target that stopped reading
  after its own EOF. -/
  targetError : Teardown.targetError ∈ s.sent ↔
    s.client = .returned .writeFailed ∨ s.client = .returned .stalled ∨
      s.target = .returned .readFailed
  /-- What counts as a client abort: a failed read of the request, a response that was stopped
  or failed, or a client that stopped reading after its own FIN. -/
  clientAbort : Teardown.clientAbort ∈ s.sent ↔
    s.client = .returned .aborted ∨ s.target = .returned .stopped ∨
      s.target = .returned .sendFailed ∨ s.target = .returned .stalled
  /-- A stall is one after the other direction's clean end. -/
  stalled : (s.client = .returned .stalled → s.target = .returned .eof) ∧
    (s.target = .returned .stalled → s.clientFinished = true)
  /-- A response that is finished is complete. -/
  clean : s.response = .finished → s.target = .returned .eof ∧ s.delivered = s.received
  /-- A response that is neither finished nor failed under the pump is reset. -/
  ends : ∀ exit, s.target = .returned exit →
    s.response = .finished ∨ s.response = .failed ∨ ∃ code, s.response = .reset code
  /-- A response fails only where the client stopped it or the connection ended. -/
  failed : s.response = .failed → s.target = .returned .stopped ∨
    s.target = .returned .sendFailed ∨ s.target = .returned .eof
  /-- The half whose pump saw the target fail or its own write stall. -/
  seen : (s.client = .returned .writeFailed ∨ s.client = .returned .stalled →
      s.request = .stopped .h3ConnectError) ∧
    (s.target = .returned .readFailed → s.response = .reset .h3ConnectError) ∧
    (s.target = .returned .stalled → s.response = .reset .h3RequestCancelled)
  /-- A half that is open when a teardown is up gets its code, as soon as its pump runs and for
  good. -/
  told : ∀ reason ∈ s.sent, ∀ polls : List Poll,
    (s.request = .live → (∃ ready, .client ready ∈ polls) →
      (s.run polls).request = .stopped reason.code) ∧
    (s.response = .live → (∃ ready, .target ready ∈ polls) →
      (s.run polls).response = .reset reason.code)
  /-- An abortive close is armed on the client aborts and the stalls. -/
  armed : s.armed = true ↔ s.client = .returned .aborted ∨ s.client = .returned .stalled ∨
    s.target = .returned .stopped ∨ s.target = .returned .sendFailed ∨
      s.target = .returned .stalled
  /-- And neither on a clean ending nor on a target error. -/
  unarmed : s.sent = [] ∨ s.client = .returned .writeFailed ∨ s.target = .returned .readFailed →
    s.armed = false

/-- A reason was sent to the latch exactly if one of the pumps raised it. -/
theorem Inv.mem_sent (h : Inv s) :
    reason ∈ s.sent ↔ s.client.raises = some reason ∨ s.target.raises = some reason := by
  rw [h.sent, Option.mem_toList, Option.or_eq_some_iff]
  constructor
  · rintro (hclient | ⟨-, htarget⟩)
    · exact Or.inl hclient
    · exact Or.inr htarget
  · rintro (hclient | htarget)
    · exact Or.inl hclient
    · refine Or.inr ⟨?_, htarget⟩
      rcases h.placed.once with hnone | hnone
      · exact hnone
      · rw [hnone] at htarget
        cases htarget

/-- A finished response is that of an EOF, a failed one that of an EOF or a client's abort. -/
theorem Inv.response_exit (h : Inv s) {exit : TargetExit} (hat : s.target = .returned exit) :
    (s.response = .finished ∧ exit = .eof) ∨
      (s.response = .failed ∧ (exit = .stopped ∨ exit = .sendFailed ∨ exit = .eof)) ∨
      ∃ code, s.response = .reset code := by
  have hresponse := h.response
  rw [hat] at hresponse
  cases exit with
  | tornDown reason => exact Or.inr (Or.inr ⟨_, hresponse⟩)
  | stopped => exact Or.inr (Or.inl ⟨hresponse, Or.inl rfl⟩)
  | sendFailed => exact Or.inr (Or.inl ⟨hresponse, Or.inr (Or.inl rfl)⟩)
  | eof =>
      rcases hresponse with hfinished | hfailed
      · exact Or.inl ⟨hfinished, rfl⟩
      · exact Or.inr (Or.inl ⟨hfailed, Or.inr (Or.inr rfl)⟩)
  | stalled => exact Or.inr (Or.inr ⟨_, hresponse⟩)
  | readFailed => exact Or.inr (Or.inr ⟨_, hresponse⟩)

/-- A response that is over is that of a pump that returned. -/
theorem Inv.exists_exit (h : Inv s) (hover : s.response ≠ .live) :
    ∃ exit, s.target = .returned exit := by
  have hresponse := h.response
  cases hat : s.target with
  | reading =>
      rw [hat] at hresponse
      exact absurd hresponse hover
  | sending data =>
      rw [hat] at hresponse
      exact absurd hresponse hover
  | returned exit => exact ⟨exit, rfl⟩

/-- A finished response had all of the target's bytes and its EOF. -/
theorem Inv.clean (h : Inv s) (hfinished : s.response = .finished) :
    s.target = .returned .eof ∧ s.delivered = s.received := by
  obtain ⟨exit, hat⟩ := h.exists_exit (by rw [hfinished]; simp)
  have hrelayed := h.relayed
  rcases h.response_exit hat with ⟨-, rfl⟩ | ⟨hfailed, -⟩ | ⟨code, hreset⟩
  · rw [hat] at hrelayed
    exact ⟨hat, hrelayed.symm⟩
  · rw [hfinished] at hfailed
    cases hfailed
  · rw [hfinished] at hreset
    cases hreset

/-- A response fails only behind a send that did not go through, or behind the EOF. -/
theorem Inv.failed (h : Inv s) (hfailed : s.response = .failed) :
    s.target = .returned .stopped ∨ s.target = .returned .sendFailed ∨
      s.target = .returned .eof := by
  obtain ⟨exit, hat⟩ := h.exists_exit (by rw [hfailed]; simp)
  rw [hat]
  rcases h.response_exit hat with ⟨hfinished, -⟩ | ⟨-, hexit⟩ | ⟨code, hreset⟩
  · rw [hfailed] at hfinished
    cases hfinished
  · simpa using hexit
  · rw [hfailed] at hreset
    cases hreset

/-- Neither a clean ending nor a target error arms an abortive close. -/
theorem Inv.unarmed (h : Inv s) (hending : s.sent = [] ∨ s.client = .returned .writeFailed ∨
    s.target = .returned .readFailed) : s.armed = false := by
  rw [h.armed]
  rcases hending with hsent | hat | hat
  · have hclient : s.client.raises = none := by
      cases hraises : s.client.raises with
      | none => rfl
      | some reason =>
          have hmem := h.mem_sent.mpr (Or.inl hraises)
          rw [hsent] at hmem
          cases hmem
    have htarget : s.target.raises = none := by
      cases hraises : s.target.raises with
      | none => rfl
      | some reason =>
          have hmem := h.mem_sent.mpr (Or.inr hraises)
          rw [hsent] at hmem
          cases hmem
    rw [s.client.aborts_of_raises hclient, s.target.aborts_of_raises htarget]
    rfl
  · rcases h.placed.once with hnone | hnone
    · rw [hat] at hnone
      cases hnone
    · rw [hat, s.target.aborts_of_raises hnone]
      rfl
  · rcases h.placed.once with hnone | hnone
    · rw [hat, s.client.aborts_of_raises hnone]
      rfl
    · rw [hat] at hnone
      cases hnone

/-- The two pumps agree wherever the invariant holds. -/
theorem Inv.agreed (h : Inv s) : Agreed s where
  once := by
    refine ⟨?_, fun hmem => ?_⟩
    · rw [h.sent]
      cases s.client.raises.or s.target.raises <;> simp
    · rcases h.mem_sent.mp hmem with hraises | hraises
      · exact s.client.raises_ne hraises
      · exact s.target.raises_ne hraises
  targetError := by
    rw [h.mem_sent, s.client.raises_targetError, s.target.raises_targetError, or_assoc]
  clientAbort := by rw [h.mem_sent, s.client.raises_clientAbort, s.target.raises_clientAbort]
  stalled := ⟨h.placed.clientStalled, fun hat =>
    h.clientFinished.trans (h.placed.targetStalled hat)⟩
  clean := h.clean
  ends := by
    intro exit hat
    rcases h.response_exit hat with ⟨hfinished, -⟩ | ⟨hfailed, -⟩ | hreset
    · exact Or.inl hfinished
    · exact Or.inr (Or.inl hfailed)
    · exact Or.inr (Or.inr hreset)
  failed := h.failed
  seen := by
    have hrequest := h.request
    have hresponse := h.response
    refine ⟨?_, fun hat => ?_, fun hat => ?_⟩
    · rintro (hat | hat) <;> rw [hrequest, hat] <;> rfl
    · rw [hat] at hresponse
      exact hresponse
    · rw [hat] at hresponse
      exact hresponse
  told := fun reason hmem polls =>
    ⟨fun hlive hpolled => h.request_run hmem hlive hpolled,
      fun hlive hpolled => h.response_run hmem hlive hpolled⟩
  armed := by rw [h.armed, Bool.or_eq_true, s.client.aborts_iff, s.target.aborts_iff, or_assoc]
  unarmed := h.unarmed

/-! ### Causes -/

/-- What a poll of `client_to_target` has to find for the pump to return at an exit: at a select a
teardown first, then what the request stream, the write and the clock answer. -/
def ClientCause (s : Tunnel) (ready : ClientReady) : ClientExit → Prop
  | .tornDown reason => s.client.atSelect = true ∧ s.tornDown = some reason
  | .writeFailed => s.tornDown = none ∧ (∃ data, s.client = .writing data) ∧
      ready.write = some .error
  | .aborted => s.tornDown = none ∧ (s.client = .reading ∧ ready.recv = some .error ∨
      (∃ data, s.client = .writing data) ∧ ready.write = none ∧ ready.resetByPeer = true)
  | .stalled => s.tornDown = none ∧ (∃ data, s.client = .writing data) ∧ ready.write = none ∧
      ready.resetByPeer = false ∧ s.targetEof = true ∧ ready.budgetPassed = true
  | .finished => s.client = .shuttingDown ∧ ready.shutdown = true

/-- The same for `target_to_client`. -/
def TargetCause (s : Tunnel) (ready : TargetReady) : TargetExit → Prop
  | .tornDown reason => s.target.atSelect = true ∧ s.tornDown = some reason
  | .stopped => s.tornDown = none ∧ s.target = .reading ∧ ready.read = none ∧
      ready.stopped = true
  | .eof => s.tornDown = none ∧ s.target = .reading ∧ ready.read = some (.bytes [])
  | .stalled => s.tornDown = none ∧ (∃ data, s.target = .sending data) ∧ ready.send = none ∧
      s.clientFinished = true ∧ ready.budgetPassed = true
  | .sendFailed => s.tornDown = none ∧ (∃ data, s.target = .sending data) ∧
      ready.send = some .error
  | .readFailed => s.tornDown = none ∧ s.target = .reading ∧ ready.read = some .error

/-- A poll of `client_to_target` that reads the client's FIN. -/
def ReadsFin (s : Tunnel) (ready : ClientReady) : Prop :=
  s.tornDown = none ∧ s.client = .reading ∧ ready.recv = some .fin

/-- The client's pump leaves the target's, and what was received. -/
theorem ClientStep.target_eq (hstep : ClientStep s s') :
    s'.target = s.target ∧ s'.received = s.received := by
  cases hstep <;> exact ⟨rfl, rfl⟩

/-- The target's pump leaves the client's. -/
theorem TargetStep.client_eq (hstep : TargetStep s s') : s'.client = s.client := by
  cases hstep <;> rfl

/-- **A poll of `client_to_target` returns at an exit exactly for its cause.** -/
theorem client_returned_iff (s : Tunnel) (ready : ClientReady) (exit : ClientExit) :
    (s.clientToTarget ready).client = .returned exit ↔
      s.client = .returned exit ∨ s.ClientCause ready exit := by
  rw [clientToTarget]
  cases hat : s.client with
  | reading =>
      simp only [clientRead]
      cases htorn : s.tornDown with
      | some reason =>
          cases exit <;> simp [ClientCause, hat, htorn, clientTornDown, clientReturn,
            ClientPump.atSelect]
      | none =>
          rcases hrecv : ready.recv with _ | (_ | _ | _) <;> cases exit <;>
            simp [ClientCause, hat, htorn, hrecv, clientFin, clientAborted, clientReturn]
  | writing data =>
      simp only [clientWrite]
      cases htorn : s.tornDown with
      | some reason =>
          cases exit <;> simp [ClientCause, hat, htorn, clientTornDown, clientReturn,
            ClientPump.atSelect]
      | none =>
          rcases hwrite : ready.write with _ | (_ | _)
          · cases hreset : ready.resetByPeer <;> cases heof : s.targetEof <;>
              cases hpassed : ready.budgetPassed <;> cases exit <;>
              simp [ClientCause, hat, htorn, hwrite, hreset, heof, hpassed, clientAborted,
                clientStalled, clientReturn]
          all_goals
            cases exit <;> simp [ClientCause, hat, htorn, hwrite, clientWriteFailed,
              clientReturn]
  | shuttingDown =>
      cases hshut : ready.shutdown <;> cases exit <;>
        simp [ClientCause, hat, hshut, clientReturn, ClientPump.atSelect]
  | returned exit' =>
      cases exit <;> simp [ClientCause, hat, ClientPump.atSelect]

/-- **A poll of `client_to_target` has met the FIN exactly if it reads it or an earlier one
did.** -/
theorem client_finished_iff (s : Tunnel) (ready : ClientReady) :
    (s.clientToTarget ready).client.finished = true ↔
      s.client.finished = true ∨ s.ReadsFin ready := by
  rw [clientToTarget]
  cases hat : s.client with
  | reading =>
      simp only [clientRead]
      cases htorn : s.tornDown with
      | some reason =>
          simp [ReadsFin, htorn, clientTornDown, clientReturn, ClientPump.finished]
      | none =>
          rcases hrecv : ready.recv with _ | (_ | _ | _) <;>
            simp [ReadsFin, hat, htorn, hrecv, clientFin, clientAborted, clientReturn,
              ClientPump.finished]
  | writing data =>
      simp only [clientWrite]
      split
      · simp [ReadsFin, hat, clientTornDown, clientReturn, ClientPump.finished]
      · split
        · simp [ReadsFin, hat, ClientPump.finished]
        · simp [ReadsFin, hat, clientWriteFailed, clientReturn, ClientPump.finished]
        · split_ifs <;> simp [ReadsFin, hat, clientAborted, clientStalled, clientReturn,
            ClientPump.finished]
  | shuttingDown =>
      split_ifs <;> simp [ReadsFin, hat, clientReturn, ClientPump.finished]
  | returned exit => simp [ReadsFin, hat]

/-- **A poll of `target_to_client` returns at an exit exactly for its cause.** -/
theorem target_returned_iff (s : Tunnel) (ready : TargetReady) (exit : TargetExit) :
    (s.targetToClient ready).target = .returned exit ↔
      s.target = .returned exit ∨ s.TargetCause ready exit := by
  rw [targetToClient]
  cases hat : s.target with
  | reading =>
      simp only [targetRead]
      cases htorn : s.tornDown with
      | some reason =>
          cases exit <;> simp [TargetCause, hat, htorn, targetTornDown, targetReturn,
            TargetPump.atSelect]
      | none =>
          rcases hread : ready.read with _ | (_ | _)
          · cases hstopped : ready.stopped <;> cases exit <;>
              simp [TargetCause, hat, htorn, hread, hstopped, targetStopped, targetReturn]
          · rename_i data
            cases data <;> cases exit <;>
              simp [TargetCause, hat, htorn, hread, targetFin, targetReturn]
          · cases exit <;> simp [TargetCause, hat, htorn, hread, targetReadFailed,
              targetReturn]
  | sending data =>
      simp only [targetSend]
      cases htorn : s.tornDown with
      | some reason =>
          cases exit <;> simp [TargetCause, hat, htorn, targetTornDown, targetReturn,
            TargetPump.atSelect]
      | none =>
          rcases hsend : ready.send with _ | (_ | _)
          · cases hfin : s.clientFinished <;> cases hpassed : ready.budgetPassed <;>
              cases exit <;>
              simp [TargetCause, hat, htorn, hsend, hfin, hpassed, targetStalled,
                targetReturn]
          all_goals
            cases exit <;> simp [TargetCause, hat, htorn, hsend, targetStopped,
              targetReturn]
  | returned exit' =>
      cases exit <;> simp [TargetCause, hat, TargetPump.atSelect]

/-- **The pumps are where the events of the run have put them**: each exit has a poll with its
cause behind it, and each poll with a cause has its exit. -/
structure Caused (polls : List Poll) : Prop where
  client : ∀ exit, (start.run polls).client = .returned exit ↔
    ∃ s ready, (s, .client ready) ∈ history step start polls ∧ s.ClientCause ready exit
  fin : (start.run polls).client.finished = true ↔
    ∃ s ready, (s, .client ready) ∈ history step start polls ∧ s.ReadsFin ready
  target : ∀ exit, (start.run polls).target = .returned exit ↔
    ∃ s ready, (s, .target ready) ∈ history step start polls ∧ s.TargetCause ready exit

/-- What the polls of one pump bring about, over a run. -/
theorem caused_run (polls : List Poll) : Caused polls where
  client exit := by
    refine (iff_exists_mem_history (Q := fun s : Tunnel => s.client = .returned exit)
      (R := fun s (poll : Poll) => ∃ ready, poll = .client ready ∧ s.ClientCause ready exit)
      (by simp [start]) ?_ polls).trans (by simp)
    intro s poll
    cases poll with
    | client ready => simpa [step] using s.client_returned_iff ready exit
    | target ready => simp [step, (s.targetStep ready).client_eq]
  fin := by
    refine (iff_exists_mem_history (Q := fun s : Tunnel => s.client.finished = true)
      (R := fun s (poll : Poll) => ∃ ready, poll = .client ready ∧ s.ReadsFin ready)
      (by simp [start, ClientPump.finished]) ?_ polls).trans (by simp)
    intro s poll
    cases poll with
    | client ready => simpa [step] using s.client_finished_iff ready
    | target ready => simp [step, (s.targetStep ready).client_eq]
  target exit := by
    refine (iff_exists_mem_history (Q := fun s : Tunnel => s.target = .returned exit)
      (R := fun s (poll : Poll) => ∃ ready, poll = .target ready ∧ s.TargetCause ready exit)
      (by simp [start]) ?_ polls).trans (by simp)
    intro s poll
    cases poll with
    | target ready => simpa [step] using s.target_returned_iff ready exit
    | client ready => simp [step, (s.clientStep ready).target_eq.1]

/-- **One verdict on both halves**: in every run the two pumps agree on how the tunnel ended, and
they ended as the events of the run say. -/
theorem agreed_run (polls : List Poll) : Agreed (start.run polls) ∧ Caused polls :=
  ⟨(inv_start.run polls).agreed, caused_run polls⟩

end Tunnel

end Tcp

end Volto
