import Volto.H3.TunnelBody
import Volto.Tunnel.TcpVerdict

/-!
# The Bytes of a TCP Tunnel

`Tcp.Tunnel` leaves to the environment what a read of the request stream returns and how much of a
write gets through. Here the pumps of `tunnel/tcp.rs` run on a real reader: what `client_to_target`
writes is what `recv_data` decodes from the stream, and what `target_to_client` writes are the DATA
frames of `Writer::send_data`. A write goes through in pieces, and one that is given up has got some
of its bytes through.

Each step of a relay is a step of its tunnel, so what holds of every tunnel holds here.

## Main results

* `Relay.tunnel_run`: a relay runs as a tunnel does.
* `Relay.relayed_run`: no byte is lost, invented or reordered in either direction, and neither is
  an end.
-/

namespace Volto

open Framing Incremental

namespace Tcp

variable {ε : Type}

/-- The block reads are cut from. -/
def relayBlockSize : ℕ := 64 * 1024

/-- How far the outstanding write gets in one poll: the bytes that are taken, and whether the write
fails behind them. -/
structure Progress where
  count : ℕ
  fails : Bool
deriving DecidableEq, Repr

/-- What a write of which `pending` is outstanding reports. -/
def Progress.outcome (progress : Progress) (pending : List UInt8) : Option Outcome :=
  if pending.drop progress.count = [] then some .ok
  else if progress.fails then some .error
  else none

/-- What the environment decides about a step of `client_to_target`. -/
structure ClientTurn where
  /-- Whether the read of the request stream resolves. -/
  recv : Bool
  write : Progress
  resetByPeer : Bool
  budgetPassed : Bool
  shutdown : Bool
deriving DecidableEq, Repr

/-- What the environment decides about a step of `target_to_client`. -/
structure TargetTurn where
  /-- What the target has for a read, or that it fails. -/
  read : Option Read
  stopped : Bool
  send : Progress
  budgetPassed : Bool
  finish : Outcome
deriving DecidableEq, Repr

/-- A turn of one of the pumps. -/
inductive Turn
  | client (turn : ClientTurn)
  | target (turn : TargetTurn)
deriving DecidableEq, Repr

/-- What `recv_data` tells the pump. -/
def recvOf : Except (ReadError ε) (Option (List UInt8)) → Recv
  | .ok (some data) => .data data
  | .ok none => .fin
  | .error _ => .error

/-- The bytes it hands over. -/
def dataOf : Except (ReadError ε) (Option (List UInt8)) → List UInt8
  | .ok (some data) => data
  | .ok none | .error _ => []

/-- A read of the target fills no more than the block it is offered. -/
def readOf : Read → Read
  | .bytes data => .bytes (data.take relayBlockSize)
  | .error => .error

/-- A tunnel with its reader and the bytes of its writes: of the outstanding write to the target
and of the outstanding send those that were not taken yet, and all that the target socket and the
response stream took. -/
structure Relay (ε : Type) where
  tunnel : Tunnel
  reader : FrameReader ε
  others : Others
  unwritten : List UInt8
  written : List UInt8
  unsent : List UInt8
  wire : List UInt8

/-- Whether `target_to_client` has no frame outstanding. -/
def TargetPump.betweenFrames : TargetPump → Bool
  | .reading | .returned .eof => true
  | .sending _ | .returned _ => false

namespace Tunnel

/-- An outstanding write goes on, or ends the pump without a FIN. -/
theorem clientWrite_client {s : Tunnel} {ready : ClientReady}
    (htorn : s.tornDown = none) (hwrite : ready.write ≠ some .ok) :
    (s.clientWrite ready).client = s.client ∨
      ∃ exit ≠ ClientExit.finished, (s.clientWrite ready).client = .returned exit := by
  rw [Tunnel.clientWrite, htorn]
  simp only
  split
  · exact absurd ‹_› hwrite
  · exact Or.inr ⟨.writeFailed, by simp, rfl⟩
  · split_ifs
    · exact Or.inr ⟨.aborted, by simp, rfl⟩
    · exact Or.inr ⟨.stalled, by simp, rfl⟩
    · exact Or.inl rfl

/-- A pump that waits at no select, or is torn down there, comes to no other select, and meets no
FIN. -/
theorem clientToTarget_elsewhere {s : Tunnel} (ready : ClientReady)
    (h : s.tornDown ≠ none ∨ s.client.atSelect = false) :
    ((s.clientToTarget ready).client = s.client ∨
      (s.clientToTarget ready).client.atSelect = false) ∧
    ((s.clientToTarget ready).client.finished = true → s.client.finished = true) := by
  have hstep := s.clientStep ready
  generalize s.clientToTarget ready = s' at hstep ⊢
  cases hstep with
  | idle => exact ⟨Or.inl rfl, id⟩
  | tornDown => exact ⟨Or.inr rfl, by rintro ⟨⟩⟩
  | shutDown hat =>
      rw [hat]
      exact ⟨Or.inr rfl, fun _ => rfl⟩
  | aborted hat htorn =>
      rcases h with h | h
      · exact absurd htorn h
      · rw [h] at hat
        cases hat
  | received hat htorn | fin hat htorn | wrote hat htorn | writeFailed hat htorn
    | stalled hat htorn =>
      rcases h with h | h
      · exact absurd htorn h
      · rw [hat] at h
        cases h

/-- A pump that has returned, or is torn down at its select, reads nothing more. -/
theorem targetToClient_elsewhere {s : Tunnel} (ready : TargetReady)
    (h : s.tornDown ≠ none ∨ s.target.atSelect = false) :
    (s.targetToClient ready).received = s.received ∧
      ((s.targetToClient ready).target.betweenFrames = true →
        s.target.betweenFrames = true) := by
  have hstep := s.targetStep ready
  generalize s.targetToClient ready = s' at hstep ⊢
  cases hstep with
  | idle => exact ⟨rfl, id⟩
  | tornDown => exact ⟨rfl, by rintro ⟨⟩⟩
  | received hat htorn | fin hat htorn | readFailed hat htorn | stopped hat htorn | sent hat htorn
    | sendFailed hat htorn | stalled hat htorn =>
      rcases h with h | h
      · exact absurd htorn h
      · rw [hat] at h
        cases h

/-- The target socket is shut down behind the client's FIN, or when a write to it has failed. -/
theorem shutDown_clientToTarget {s : Tunnel} (hinv : s.Inv)
    (h : s.tcpWrite = .shutDown → s.clientFinished = true ∨ s.client = .returned .writeFailed)
    (ready : ClientReady) : (s.clientToTarget ready).tcpWrite = .shutDown →
      (s.clientToTarget ready).clientFinished = true ∨
        (s.clientToTarget ready).client = .returned .writeFailed := by
  have hfinished := hinv.clientFinished
  have hstep := s.clientStep ready
  generalize s.clientToTarget ready = s' at hstep ⊢
  cases hstep with
  | idle => exact h
  | fin => exact fun _ => Or.inl rfl
  | writeFailed => exact fun _ => Or.inr rfl
  | shutDown hat =>
      rw [hat] at hfinished
      exact fun _ => Or.inl hfinished
  | tornDown | aborted | stalled => rintro ⟨⟩
  | received hat | wrote hat =>
      intro hshut
      rcases h hshut with hfin | hfailed
      · exact Or.inl hfin
      · rw [hat] at hfailed
        cases hfailed

/-- The target's pump leaves the reason for which the write half was shut down. -/
theorem shutDown_targetToClient {s : Tunnel}
    (h : s.tcpWrite = .shutDown → s.clientFinished = true ∨ s.client = .returned .writeFailed)
    (ready : TargetReady) : (s.targetToClient ready).tcpWrite = .shutDown →
      (s.targetToClient ready).clientFinished = true ∨
        (s.targetToClient ready).client = .returned .writeFailed := by
  have hstep := s.targetStep ready
  generalize s.targetToClient ready = s' at hstep ⊢
  cases hstep <;> exact h

/-- An outstanding send reads nothing, and only one that is done leaves the pump between frames. -/
theorem targetSend_target {s : Tunnel} {data : List UInt8} {ready : TargetReady}
    (htorn : s.tornDown = none) (hat : s.target = .sending data) :
    (s.targetSend data ready).received = s.received ∧
      (ready.send ≠ some .ok → (s.targetSend data ready).target.betweenFrames = false) := by
  rw [targetSend, htorn]
  simp only
  split
  · rename_i hsend
    exact ⟨rfl, fun hne => absurd hsend hne⟩
  · exact ⟨rfl, fun _ => rfl⟩
  · split_ifs
    · exact ⟨rfl, fun _ => rfl⟩
    · rw [hat]
      exact ⟨rfl, fun _ => rfl⟩

end Tunnel

namespace Relay

/-- A relay whose 200 has been sent. -/
def start (reader : FrameReader ε) (others : Others) : Relay ε :=
  ⟨.start, reader, others, [], [], [], []⟩

/-- What is ready for `client_to_target`. -/
def clientReady (r : Relay ε) (turn : ClientTurn) : ClientReady where
  recv := if turn.recv then some (recvOf (r.reader.recvData r.others).1) else none
  write := turn.write.outcome r.unwritten
  resetByPeer := turn.resetByPeer
  budgetPassed := turn.budgetPassed
  shutdown := turn.shutdown

/-- What is ready for `target_to_client`. -/
def targetReady (r : Relay ε) (turn : TargetTurn) : TargetReady where
  read := turn.read.map readOf
  stopped := turn.stopped
  send := turn.send.outcome r.unsent
  budgetPassed := turn.budgetPassed
  finish := turn.finish

/-- One step of `client_to_target`. A pump that is torn down polls nothing else. -/
def clientToTarget (r : Relay ε) (turn : ClientTurn) : Relay ε :=
  let moved := { r with tunnel := r.tunnel.clientToTarget (r.clientReady turn) }
  match r.tunnel.tornDown, r.tunnel.client with
  | none, .reading =>
      if turn.recv then
        let (result, reader, others) := r.reader.recvData r.others
        { moved with reader := reader, others := others, unwritten := dataOf result }
      else
        moved
  | none, .writing _ =>
      { moved with
        written := r.written ++ r.unwritten.take turn.write.count
        unwritten := r.unwritten.drop turn.write.count }
  | _, _ => moved

/-- One step of `target_to_client`. -/
def targetToClient (r : Relay ε) (turn : TargetTurn) : Relay ε :=
  let moved := { r with tunnel := r.tunnel.targetToClient (r.targetReady turn) }
  match r.tunnel.tornDown, r.tunnel.target with
  | none, .reading =>
      match moved.tunnel.target with
      | .sending data => { moved with unsent := FrameReader.dataFrame data }
      | _ => moved
  | none, .sending _ =>
      { moved with
        wire := r.wire ++ r.unsent.take turn.send.count
        unsent := r.unsent.drop turn.send.count }
  | _, _ => moved

/-- One step of the relay. -/
def step (r : Relay ε) : Turn → Relay ε
  | .client turn => r.clientToTarget turn
  | .target turn => r.targetToClient turn

/-- A run of the relay. -/
def run (r : Relay ε) (turns : List Turn) : Relay ε :=
  History.run step r turns

/-! ### A relay is a tunnel -/

/-- What a turn is for the tunnel. -/
def pollOf (r : Relay ε) : Turn → Tunnel.Poll
  | .client turn => .client (r.clientReady turn)
  | .target turn => .target (r.targetReady turn)

/-- A turn of the relay is a poll of the tunnel. -/
theorem tunnel_step (r : Relay ε) (turn : Turn) :
    (r.step turn).tunnel = r.tunnel.step (r.pollOf turn) := by
  cases turn with
  | client turn =>
      rw [step, clientToTarget]
      split
      · split_ifs <;> rfl
      · rfl
      · rfl
  | target turn =>
      rw [step, targetToClient]
      split
      · split <;> rfl
      · rfl
      · rfl

/-- **A relay runs as a tunnel does.** -/
theorem tunnel_run (r : Relay ε) (turns : List Turn) :
    ∃ polls, (r.run turns).tunnel = r.tunnel.run polls := by
  induction turns generalizing r with
  | nil => exact ⟨[], rfl⟩
  | cons turn turns ih =>
      obtain ⟨polls, hpolls⟩ := ih (r.step turn)
      refine ⟨r.pollOf turn :: polls, ?_⟩
      rw [tunnel_step] at hpolls
      exact hpolls

/-! ### Towards the target -/

/-- **What holds of the bytes towards the target**, of a stream with a body that ends in some way:
they are a front of the body, and all of it once the client's FIN was met. -/
structure ToTarget (body : List UInt8) (ending : Option (ReadError ε)) (r : Relay ε) : Prop where
  front : r.written ++ r.unwritten <+: body
  atSelect : r.tunnel.client.atSelect = true → ∃ m, r.reader.At m ∧ FrameReader.Tunnelled m ∧
    r.written ++ r.unwritten ++ FrameReader.bodyOf (r.reader.rest m).out = body ∧
    FrameReader.bodyEnding r.reader.recv.failure (r.reader.rest m) = ending
  reading : r.tunnel.client = .reading → r.unwritten = []
  finished : r.tunnel.client.finished = true → r.written = body ∧ ending = none

variable {r r' : Relay ε} {body : List UInt8} {ending : Option (ReadError ε)}

/-- A step that touches none of it, and after which the pump waits at no other select. -/
theorem ToTarget.still (h : ToTarget body ending r) (hreader : r'.reader = r.reader)
    (hwritten : r'.written = r.written) (hunwritten : r'.unwritten = r.unwritten)
    (hclient : r'.tunnel.client = r.tunnel.client ∨ r'.tunnel.client.atSelect = false)
    (hfinished : r'.tunnel.client.finished = true → r.tunnel.client.finished = true) :
    ToTarget body ending r' where
  front := by
    rw [hwritten, hunwritten]
    exact h.front
  atSelect hat := by
    rw [hreader, hwritten, hunwritten]
    rcases hclient with hclient | hclient
    · exact h.atSelect (hclient ▸ hat)
    · rw [hclient] at hat
      cases hat
  reading hat := by
    rw [hunwritten]
    rcases hclient with hclient | hclient
    · exact h.reading (hclient ▸ hat)
    · rw [hat] at hclient
      cases hclient
  finished hat := by
    rw [hwritten]
    exact h.finished (hfinished hat)

/-- A read that resolves. -/
theorem ToTarget.read (h : ToTarget body ending r) (hat : r.tunnel.client = .reading)
    (htorn : r.tunnel.tornDown = none) {turn : ClientTurn} (hrecv : turn.recv = true) :
    ToTarget body ending (r.clientToTarget turn) := by
  obtain ⟨m, hm, ht, hbody, hending⟩ := h.atSelect (by rw [hat]; rfl)
  have hnone := h.reading hat
  rw [hnone, List.append_nil] at hbody
  have hspec := FrameReader.recvData_spec hm ht r.others
  have hready : (r.clientReady turn).recv = some (recvOf (r.reader.recvData r.others).1) :=
    if_pos hrecv
  simp only [clientToTarget, htorn, hat, hrecv, if_true, Tunnel.clientToTarget, Tunnel.clientRead,
    hready]
  generalize r.reader.recvData r.others = received at hspec
  obtain ⟨_ | _ | data, reader, others⟩ := received
  · exact {
      front := by
        rw [dataOf, List.append_nil, ← hbody]
        exact List.prefix_append _ _
      atSelect := by rintro ⟨⟩
      reading := by rintro ⟨⟩
      finished := by rintro ⟨⟩ }
  · obtain ⟨hout, hend⟩ := hspec
    rw [hout, List.append_nil] at hbody
    exact {
      front := by
        rw [dataOf, List.append_nil]
        exact ⟨[], by rw [List.append_nil, hbody]⟩
      atSelect := by rintro ⟨⟩
      reading := by rintro ⟨⟩
      finished := fun _ => ⟨hbody, hending.symm.trans hend⟩ }
  · obtain ⟨-, hfailure, used, events, m', hm', hused, hfeed, hdata⟩ := hspec
    have hrest := FrameReader.rest_of_used hused hfeed
    have ht' := (ht.run used).1
    rw [hfeed] at ht'
    have hbody' : r.written ++ data ++ FrameReader.bodyOf (reader.rest m').out = body := by
      rw [← hbody, hrest, FrameReader.bodyOf_append, hdata, List.append_assoc]
    exact {
      front := by
        rw [← hbody']
        exact List.prefix_append _ _
      atSelect := fun _ => ⟨m', hm', ht', hbody', by
        rw [hrest, ← hfailure] at hending
        exact hending⟩
      reading := by rintro ⟨⟩
      finished := by rintro ⟨⟩ }

/-- A poll of the outstanding write. -/
theorem ToTarget.write (h : ToTarget body ending r) {data : List UInt8}
    (hat : r.tunnel.client = .writing data) (htorn : r.tunnel.tornDown = none) (turn : ClientTurn) :
    ToTarget body ending (r.clientToTarget turn) := by
  have hsplit : r.written ++ r.unwritten.take turn.write.count ++
      r.unwritten.drop turn.write.count = r.written ++ r.unwritten := by
    rw [List.append_assoc, List.take_append_drop]
  have hselect := h.atSelect (by rw [hat]; rfl)
  have hclient : ∀ client, (r.tunnel.clientWrite (r.clientReady turn)).client = client →
      client.finished = false ∧ (client = .reading → r.unwritten.drop turn.write.count = []) := by
    rintro client rfl
    by_cases hdone : r.unwritten.drop turn.write.count = []
    · have hready : (r.clientReady turn).write = some .ok := if_pos hdone
      rw [Tunnel.clientWrite, htorn]
      simp only [hready]
      exact ⟨rfl, fun _ => hdone⟩
    · have hready : (r.clientReady turn).write ≠ some .ok := by
        simp only [clientReady, Progress.outcome, if_neg hdone]
        split_ifs <;> simp
      rcases Tunnel.clientWrite_client htorn hready with hsame | ⟨exit, hne, hreturned⟩
      · rw [hsame, hat]
        exact ⟨rfl, by rintro ⟨⟩⟩
      · rw [hreturned]
        refine ⟨?_, by rintro ⟨⟩⟩
        cases exit with
        | finished => exact absurd rfl hne
        | tornDown | writeFailed | aborted | stalled => rfl
  simp only [clientToTarget, htorn, hat, Tunnel.clientToTarget]
  exact {
    front := by
      rw [hsplit]
      exact h.front
    atSelect := fun _ => by
      rw [hsplit]
      exact hselect
    reading := (hclient _ rfl).2
    finished := fun hfinished => by
      rw [(hclient _ rfl).1] at hfinished
      cases hfinished }

/-- Elsewhere a step of the pump moves no bytes. -/
theorem clientToTarget_elsewhere (turn : ClientTurn)
    (h : r.tunnel.tornDown ≠ none ∨ r.tunnel.client.atSelect = false) :
    r.clientToTarget turn =
      { r with tunnel := r.tunnel.clientToTarget (r.clientReady turn) } := by
  rw [clientToTarget]
  split
  · rename_i htorn hat
    simp [htorn, hat, ClientPump.atSelect] at h
  · rename_i htorn hat
    simp [htorn, hat, ClientPump.atSelect] at h
  · rfl

/-- **A step of `client_to_target`.** -/
theorem ToTarget.clientToTarget (h : ToTarget body ending r) (turn : ClientTurn) :
    ToTarget body ending (r.clientToTarget turn) := by
  by_cases helse : r.tunnel.tornDown ≠ none ∨ r.tunnel.client.atSelect = false
  · obtain ⟨hclient, hfinished⟩ :=
      Tunnel.clientToTarget_elsewhere (r.clientReady turn) helse
    rw [clientToTarget_elsewhere turn helse]
    exact h.still rfl rfl rfl hclient hfinished
  · obtain ⟨htorn, hselect⟩ := not_or.mp helse
    rw [ne_eq, not_not] at htorn
    cases hat : r.tunnel.client with
    | reading =>
        by_cases hrecv : turn.recv = true
        · exact h.read hat htorn hrecv
        · have hready : (r.clientReady turn).recv = none := if_neg hrecv
          have hsame : r.clientToTarget turn = r := by
            simp only [Relay.clientToTarget, htorn, hat, if_neg hrecv, Tunnel.clientToTarget,
              Tunnel.clientRead, hready]
          rw [hsame]
          exact h
    | writing data => exact h.write hat htorn turn
    | shuttingDown | returned exit =>
        rw [hat] at hselect
        exact absurd rfl hselect

/-- The target's pump leaves the bytes on their way to the target. -/
theorem ToTarget.targetToClient (h : ToTarget body ending r) (turn : TargetTurn) :
    ToTarget body ending (r.targetToClient turn) := by
  have hclient : (r.targetToClient turn).tunnel.client = r.tunnel.client := by
    rw [show (r.targetToClient turn).tunnel = _ from tunnel_step r (.target turn)]
    exact (Tunnel.targetStep _ _).client_eq
  refine h.still ?_ ?_ ?_ (Or.inl hclient) (by rw [hclient]; exact id)
  all_goals
    rw [Relay.targetToClient]
    split
    · split <;> rfl
    · rfl
    · rfl

/-! ### Towards the client -/

/-- **What holds of the bytes towards the client**: they are a front of DATA frames that carry what
was read from the target, and whole frames while nothing is being sent. -/
structure ToClient (r : Relay ε) : Prop where
  frames : ∃ frames, FrameReader.TunnelFrames frames ∧
    encodeAll WireFrame.encode frames = some (r.wire ++ r.unsent) ∧
    FrameReader.payloads frames = r.tunnel.received
  between : r.tunnel.target.betweenFrames = true → r.unsent = []

/-- A step that touches none of it. -/
theorem ToClient.still (h : ToClient r) (hwire : r'.wire = r.wire) (hunsent : r'.unsent = r.unsent)
    (hreceived : r'.tunnel.received = r.tunnel.received)
    (hbetween : r'.tunnel.target.betweenFrames = true → r.tunnel.target.betweenFrames = true) :
    ToClient r' where
  frames := by
    rw [hwire, hunsent, hreceived]
    exact h.frames
  between hr' := by
    rw [hunsent]
    exact h.between (hbetween hr')

/-- A poll of the outstanding send. -/
theorem ToClient.send (h : ToClient r) {data : List UInt8} (hat : r.tunnel.target = .sending data)
    (htorn : r.tunnel.tornDown = none) (turn : TargetTurn) :
    ToClient (r.targetToClient turn) := by
  have hsplit : r.wire ++ r.unsent.take turn.send.count ++ r.unsent.drop turn.send.count =
      r.wire ++ r.unsent := by
    rw [List.append_assoc, List.take_append_drop]
  obtain ⟨hreceived, hbetween⟩ :=
    @Tunnel.targetSend_target _ _ (r.targetReady turn) htorn hat
  simp only [Relay.targetToClient, htorn, hat, Tunnel.targetToClient]
  exact {
    frames := by
      rw [hsplit, hreceived]
      exact h.frames
    between := fun hr' => by
      by_contra hleft
      have hready : (r.targetReady turn).send ≠ some .ok := by
        simp only [targetReady, Progress.outcome, if_neg hleft]
        split_ifs <;> simp
      rw [hbetween hready] at hr'
      cases hr' }

/-- A read of the target. -/
theorem ToClient.read (h : ToClient r) (hat : r.tunnel.target = .reading)
    (htorn : r.tunnel.tornDown = none) (turn : TargetTurn) :
    ToClient (r.targetToClient turn) := by
  have hquiet : r.tunnel.target.betweenFrames = true := by rw [hat]; rfl
  obtain ⟨read, stopped, send, budgetPassed, finish⟩ := turn
  simp only [Relay.targetToClient, htorn, hat, Tunnel.targetToClient, Tunnel.targetRead,
    targetReady]
  rcases read with _ | data | _
  · cases stopped with
    | true => exact h.still rfl rfl rfl fun _ => hquiet
    | false =>
        simp only [Option.map_none, Bool.false_eq_true, if_false, hat]
        exact h
  · simp only [Option.map_some, readOf]
    by_cases hempty : data.take relayBlockSize = []
    · simp only [if_pos hempty]
      exact h.still rfl rfl rfl fun _ => hquiet
    · simp only [if_neg hempty]
      obtain ⟨frames, hframes, henc, hpayloads⟩ := h.frames
      rw [h.between hquiet, List.append_nil] at henc
      have hshort : (data.take relayBlockSize).length ≤ varintMax :=
        (List.length_take_le relayBlockSize data).trans (by decide)
      obtain ⟨hframes', henc', hpayloads'⟩ := FrameReader.frames_concat hframes henc hshort
      exact {
        frames := ⟨_, hframes', henc', hpayloads'.trans (by rw [hpayloads])⟩
        between := by rintro ⟨⟩ }
  · exact h.still rfl rfl rfl fun _ => hquiet

/-- Elsewhere a step of the pump moves no bytes. -/
theorem targetToClient_elsewhere (turn : TargetTurn)
    (h : r.tunnel.tornDown ≠ none ∨ r.tunnel.target.atSelect = false) :
    r.targetToClient turn =
      { r with tunnel := r.tunnel.targetToClient (r.targetReady turn) } := by
  rw [targetToClient]
  split
  · rename_i htorn hat
    simp [htorn, hat, TargetPump.atSelect] at h
  · rename_i htorn hat
    simp [htorn, hat, TargetPump.atSelect] at h
  · rfl

/-- **A step of `target_to_client`.** -/
theorem ToClient.targetToClient (h : ToClient r) (turn : TargetTurn) :
    ToClient (r.targetToClient turn) := by
  by_cases helse : r.tunnel.tornDown ≠ none ∨ r.tunnel.target.atSelect = false
  · obtain ⟨hreceived, hbetween⟩ := Tunnel.targetToClient_elsewhere (r.targetReady turn) helse
    rw [targetToClient_elsewhere turn helse]
    exact h.still rfl rfl hreceived hbetween
  · obtain ⟨htorn, hselect⟩ := not_or.mp helse
    rw [ne_eq, not_not] at htorn
    cases hat : r.tunnel.target with
    | reading => exact h.read hat htorn turn
    | sending data => exact h.send hat htorn turn
    | returned exit =>
        rw [hat] at hselect
        exact absurd rfl hselect

/-- The client's pump leaves the bytes on their way to the client. -/
theorem ToClient.clientToTarget (h : ToClient r) (turn : ClientTurn) :
    ToClient (r.clientToTarget turn) := by
  obtain ⟨htarget, hreceived⟩ :
      (r.clientToTarget turn).tunnel.target = r.tunnel.target ∧
        (r.clientToTarget turn).tunnel.received = r.tunnel.received := by
    rw [show (r.clientToTarget turn).tunnel = _ from tunnel_step r (.client turn)]
    exact (Tunnel.clientStep _ _).target_eq
  refine h.still ?_ ?_ hreceived (by rw [htarget]; exact id)
  all_goals
    rw [Relay.clientToTarget]
    split
    · split_ifs <;> rfl
    · rfl
    · rfl

/-! ### Runs -/

/-- **What holds of a relay in every run.** -/
structure Inv (body : List UInt8) (ending : Option (ReadError ε)) (r : Relay ε) : Prop where
  tunnel : r.tunnel.Inv
  shutDown : r.tunnel.tcpWrite = .shutDown →
    r.tunnel.clientFinished = true ∨ r.tunnel.client = .returned .writeFailed
  toTarget : ToTarget body ending r
  toClient : ToClient r

/-- **Step lemma**: a turn keeps the invariant. -/
theorem Inv.step (h : Inv body ending r) (turn : Turn) : Inv body ending (r.step turn) := by
  have htunnel := tunnel_step r turn
  cases turn with
  | client turn =>
      exact {
        tunnel := htunnel ▸ h.tunnel.step _
        shutDown := htunnel ▸ Tunnel.shutDown_clientToTarget h.tunnel h.shutDown _
        toTarget := h.toTarget.clientToTarget turn
        toClient := h.toClient.clientToTarget turn }
  | target turn =>
      exact {
        tunnel := htunnel ▸ h.tunnel.step _
        shutDown := htunnel ▸ Tunnel.shutDown_targetToClient h.shutDown _
        toTarget := h.toTarget.targetToClient turn
        toClient := h.toClient.targetToClient turn }

/-- A relay begins with nothing moved. -/
theorem inv_start {reader : FrameReader ε} {m : FrameMachine} (hm : reader.BetweenFrames m)
    (others : Others) :
    Inv (FrameReader.bodyOf (reader.rest m).out)
      (FrameReader.bodyEnding reader.recv.failure (reader.rest m)) (start reader others) where
  tunnel := Tunnel.inv_start
  shutDown := by rintro ⟨⟩
  toTarget := {
    front := List.nil_prefix
    atSelect := fun _ => ⟨m, hm.at_machine, hm.tunnelled, rfl, rfl⟩
    reading := fun _ => rfl
    finished := by rintro ⟨⟩ }
  toClient := {
    frames := ⟨[], by simp [FrameReader.TunnelFrames], rfl, rfl⟩
    between := fun _ => rfl }

/-- **The invariant holds in every run.** -/
theorem Inv.run (h : Inv body ending r) (turns : List Turn) : Inv body ending (r.run turns) :=
  History.run_invariant (fun _ turn hinv => hinv.step turn) h turns

/-- A response that is finished is whole frames. -/
theorem Inv.unsent (h : Inv body ending r) (hfinished : r.tunnel.response = .finished) :
    r.unsent = [] := by
  refine h.toClient.between ?_
  rw [(h.tunnel.clean hfinished).1]
  rfl

/-- **What a peer reads of the response**: a front of what was read from the target, and all of it,
with a clean end, once the response is finished. -/
theorem Inv.response (h : Inv body ending r) {ε' : Type} (peer : RecvStream ε') (others : Others)
    (hpeer : peer.chunks.flatten <+: r.wire) :
    ((FrameReader.withKind peer .tunnel).recvAll others).1.flatten <+: r.tunnel.received ∧
      (r.tunnel.response = .finished → peer.chunks.flatten = r.wire →
        ((FrameReader.withKind peer .tunnel).recvAll others).1.flatten = r.tunnel.received ∧
        ((FrameReader.withKind peer .tunnel).recvAll others).2 = peer.failure.map .transport) := by
  obtain ⟨frames, hframes, henc, hpayloads⟩ := h.toClient.frames
  have hbetween : (FrameReader.withKind peer .tunnel).BetweenFrames (FrameMachine.new .tunnel) :=
    ⟨FrameReader.at_withKind peer .tunnel, rfl, rfl⟩
  rw [← hpayloads]
  refine ⟨?_, fun hfinished hwhole => ?_⟩
  · obtain ⟨back, hback⟩ := hpeer
    rw [← hback, List.append_assoc] at henc
    exact (hbetween.recvAll_front hframes henc others).1
  · rw [h.unsent hfinished, List.append_nil, ← hwhole] at henc
    exact hbetween.recvAll_whole hframes henc others

/-- **No byte of a tunnel is lost, invented or reordered, and neither is an end.** Let a stream
begin with a request that is returned, and be relayed, in any run of the two pumps.

The relay runs as a tunnel does, so that its ends are those of a tunnel. The target socket takes a
front of the body the stream carries. The client's FIN is met when that front is all of the body and
the body ended cleanly, and only then, or where a write to it failed, is the socket shut down. A
peer that reads the response is given a front of what was read from the target; when the response
is finished it is given all of it, and no end before. -/
theorem relayed_run {recv : RecvStream ε} {others : Others} {request : Volto.Request}
    {reader : FrameReader ε} {left : Others}
    (hread : (FrameReader.withKind recv .request).readRequest others = (.ok request, reader, left))
    {turns : List Turn} {r : Relay ε} (hrun : (start reader.split left).run turns = r)
    (others' : Others) :
    (∃ polls, r.tunnel = Tunnel.start.run polls) ∧
    r.written <+: (reader.split.recvAll others').1.flatten ∧
    (r.tunnel.clientFinished = true → r.written = (reader.split.recvAll others').1.flatten ∧
      (reader.split.recvAll others').2 = none) ∧
    (r.tunnel.tcpWrite = .shutDown →
      r.tunnel.clientFinished = true ∨ r.tunnel.client = .returned .writeFailed) ∧
    ∀ (ε' : Type) (peer : RecvStream ε') (others'' : Others), peer.chunks.flatten <+: r.wire →
      ((FrameReader.withKind peer .tunnel).recvAll others'').1.flatten <+: r.tunnel.received ∧
      (r.tunnel.response = .finished → peer.chunks.flatten = r.wire →
        ((FrameReader.withKind peer .tunnel).recvAll others'').1.flatten = r.tunnel.received ∧
        ((FrameReader.withKind peer .tunnel).recvAll others'').2 =
          peer.failure.map .transport) := by
  subst hrun
  obtain ⟨m, hm⟩ := FrameReader.split_between hread
  have h := (inv_start hm left).run turns
  obtain ⟨hflat, -, hending⟩ := FrameReader.recvAll_spec hm.at_machine hm.tunnelled others'
  refine ⟨tunnel_run _ turns, ?_, fun hfinished => ?_, h.shutDown, fun ε' peer others'' hpeer =>
    h.response peer others'' hpeer⟩
  · rw [hflat]
    exact (List.prefix_append _ _).trans h.toTarget.front
  · rw [hflat, hending]
    exact h.toTarget.finished (h.tunnel.clientFinished.symm.trans hfinished)

/-- A target that sends one byte and closes: the peer of its response reads the byte, and then the
end. -/
theorem relayed_run_eof :
    ((FrameReader.withKind (ε := Empty) ⟨[[0x00], [0x01, 0x6f]], none⟩ .tunnel).recvAll
        fun _ => 0).1.flatten = [0x6f] ∧
      ((FrameReader.withKind (ε := Empty) ⟨[[0x00], [0x01, 0x6f]], none⟩ .tunnel).recvAll
        fun _ => 0).2 = none := by
  have hstream : (RecvStream.mk (ε := Empty)
      [[0x01, 0x08, 0x00, 0x00, 0xcf, 0x50, 0x03, 0x61, 0x3a, 0x31]] none).chunks.flatten =
      [0x01, 0x08, 0x00, 0x00, 0xcf, 0x50, 0x03, 0x61, 0x3a, 0x31] ++ [] := rfl
  obtain ⟨request, reader, left, hread, -, -⟩ := FrameReader.readRequest_connect hstream
  have h := (relayed_run hread (Eq.refl ((start reader.split left).run
    [.target ⟨some (.bytes [0x6f]), false, ⟨0, false⟩, false, .ok⟩,
      .target ⟨none, false, ⟨2, false⟩, false, .ok⟩, .target ⟨none, false, ⟨1, false⟩, false, .ok⟩,
      .target ⟨some (.bytes []), false, ⟨0, false⟩, false, .ok⟩])) fun _ => 0).2.2.2.2 Empty
    ⟨[[0x00], [0x01, 0x6f]], none⟩ (fun _ => 0) List.prefix_rfl
  exact h.2 rfl rfl

end Relay

end Tcp

end Volto
