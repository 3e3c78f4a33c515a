import Volto.Datagram
import Volto.H3.TunnelBody
import Volto.Lib.History
import Volto.Tunnel.UdpSession
import Volto.WireCapsule

/-!
# The Bytes of a CONNECT-UDP Session

`Udp.Session` takes what its three sources bring from outside. Here a session of `tunnel/udp.rs` is
linked to what brings it: the router of its connection, which other sessions and the task that reads
the connection's datagrams use in between, and the reader of its request stream. What it writes are
the QUIC datagrams of `datagram.rs`, or DATAGRAM capsules in DATA frames, of which the last may have
been given up half-way.

## Main results

* `Link.Inv.step`: what every move preserves.
* `relayed_over_the_wire`: what the target is sent was sent to this session, and what the target
  sent is what the client reads.
-/

namespace Volto

open Framing Incremental

namespace Udp

open Datagrams (Shared Receiver Delivery)

variable {ε : Type}

/-- What the environment decides about the next event of a session. -/
inductive Source
  /-- A payload is taken from the router. -/
  | inbound (env : Sending)
  /-- The router is gone. -/
  | closed (env : Sending)
  /-- What the target socket has, and how much of a capsule that is given up was taken. -/
  | socket (received : Except IoError (List UInt8)) (env : Replying) (taken : ℕ)
  /-- The read of the request stream resolves. -/
  | stream (envs : ℕ → Sending)

/-- A move of the session or of another party of its connection. -/
inductive Move
  | turn (now : ℕ) (source : Source)
  /-- Nothing came before the deadline. -/
  | expire (now : ℕ)
  | elsewhere (action : Shared.Action)

/-- What `recv_data` tells the session. -/
def chunkOf : Except (ReadError ε) (Option (List UInt8)) → Session.Chunk
  | .ok (some data) => .data data
  | .ok none => .fin
  | .error _ => .error

/-- A DATAGRAM capsule that carries a UDP payload, in its DATA frame. -/
def capsuleOf (packet : List UInt8) : List UInt8 :=
  (encodeDatagram contextIdUdpPayload packet).getD []

/-- A receiver is dropped, and its queue read, by its own session only. -/
def foreign (receiver : ℕ) : Shared.Action → Bool
  | .recv i | .drop i => i ≠ receiver
  | .register _ | .deliver _ | .countDrop _ => true

/-- A session with its connection's router, its stream, and what it wrote: the datagrams it gave
to the connection, the packets it gave to `send_data`, and their bytes that the stream took and did
not take. -/
structure Link (ε : Type) where
  shared : Shared
  receiver : ℕ
  going : Bool
  session : Session
  reader : FrameReader ε
  others : Others
  datagrams : List (List UInt8)
  capsules : List (List UInt8)
  wire : List UInt8
  unsent : List UInt8
  /-- Whether a write failed under the session. -/
  failed : Bool

namespace Link

/-- A session that has claimed its datagrams. -/
def start (shared : Shared) (receiver : ℕ) (session : Session) (reader : FrameReader ε)
    (others : Others) : Link ε :=
  ⟨shared, receiver, true, session, reader, others, [], [], [], [], false⟩

/-- What a source brings, when it has something. -/
def event (l : Link ε) : Source → Option Event
  | .inbound env =>
      (l.shared.recv l.receiver).1.map fun payload => .inbound (some payload) env
  | .closed env => some (.inbound none env)
  | .socket received env _ => some (.socket (received.map (List.take maxUdpPayload)) env)
  | .stream envs => some (.stream (chunkOf (l.reader.recvData l.others).1) envs)

/-- What `forward_to_client` writes. -/
def write (l : Link ε) (packet : List UInt8) (env : Replying) (taken : ℕ) : Link ε :=
  match env.datagramLimit with
  | some limit =>
      if limit < encodedLen l.session.quarterStreamId contextIdUdpPayload packet.length then
        l
      else
        { l with
          datagrams := l.datagrams ++
            (Datagram.encodeUdpPayload l.session.quarterStreamId packet).toList }
  | none =>
      let frame := FrameReader.dataFrame (capsuleOf packet)
      -- a write that is given up has left at least one byte behind
      let taken := if env.write = .ok then frame.length else min taken (frame.length - 1)
      { l with
        capsules := l.capsules ++ [packet]
        wire := l.wire ++ frame.take taken
        unsent := l.unsent ++ frame.drop taken
        failed := l.failed || env.write = .error }

/-- What an event takes from its source, and writes. -/
def consume (l : Link ε) : Source → Link ε
  | .inbound _ => { l with shared := (l.shared.recv l.receiver).2 }
  | .closed _ | .socket (.error _) _ _ => l
  | .socket (.ok packet) env taken => l.write (packet.take maxUdpPayload) env taken
  | .stream _ =>
      { l with
        reader := (l.reader.recvData l.others).2.1
        others := (l.reader.recvData l.others).2.2 }

/-- The session has taken a turn; one that is over drops its receiver. -/
def settle (l : Link ε) (ran : Bool × Session) : Link ε :=
  { l with
    going := ran.1
    session := ran.2
    shared := if ran.1 then l.shared else l.shared.drop l.receiver }

/-- One move. -/
def step (ctx : Context) (l : Link ε) : Move → Link ε
  | .turn now source =>
      match l.going, l.event source with
      | true, some event =>
          let ran := l.session.turn ctx ⟨now, some event⟩
          if l.session.deadline ≤ now then l.settle ran else (l.consume source).settle ran
      | _, _ => l
  | .expire now =>
      if l.going then l.settle (l.session.turn ctx ⟨now, none⟩) else l
  | .elsewhere action =>
      if foreign l.receiver action then { l with shared := l.shared.step action } else l

/-- A run. -/
def run (ctx : Context) (l : Link ε) (moves : List Move) : Link ε :=
  History.run (step ctx) l moves

end Link

/-! ### What an event adds to the record -/

namespace Session

/-- What a session's record gains, beside what is sent to the target. -/
structure Gains (s s' : Session) (chunks routed : List (List UInt8))
    (replies : List (Path × List UInt8)) : Prop where
  chunks : s'.chunks = s.chunks ++ chunks
  routed : s'.routed = s.routed ++ routed
  replies : s'.replies = s.replies ++ replies
  quarterStreamId : s'.quarterStreamId = s.quarterStreamId

/-- A step that neither takes in nor sends out gains nothing. -/
theorem Gains.nothing {s s' : Session} (hchunks : s'.chunks = s.chunks)
    (hrouted : s'.routed = s.routed) (hreplies : s'.replies = s.replies)
    (hquarter : s'.quarterStreamId = s.quarterStreamId) : Gains s s' [] [] [] :=
  ⟨hchunks.trans (List.append_nil _).symm, hrouted.trans (List.append_nil _).symm,
    hreplies.trans (List.append_nil _).symm, hquarter⟩

/-- What is put on the stream is no part of it. -/
theorem Gains.signals {s s' : Session} {chunks routed : List (List UInt8)}
    {replies : List (Path × List UInt8)} (h : Gains s s' chunks routed replies)
    (signals : List Signal) : Gains s { s' with signals := signals } chunks routed replies :=
  ⟨h.chunks, h.routed, h.replies, h.quarterStreamId⟩

end Session

/-- The chunk an event takes from the stream. -/
def Event.chunks : Event → List (List UInt8)
  | .stream (.data bytes) _ => [bytes]
  | _ => []

/-- The payload it takes from the router. -/
def Event.routed : Event → List (List UInt8)
  | .inbound (some payload) _ => [payload]
  | _ => []

/-- The packet it sends to the client. -/
def Event.replies (quarterStreamId : ℕ) : Event → List (Path × List UInt8)
  | .socket (.ok packet) env =>
      match env.datagramLimit with
      | some limit =>
          if limit < encodedLen quarterStreamId contextIdUdpPayload packet.length then []
          else [(.datagram, packet)]
      | none => if env.write = .ok then [(.capsule, packet)] else []
  | _ => []

namespace Session

/-- Forwarding to the target leaves the replies and the stream id. -/
theorem forwardToTarget_untouched (s : Session) (ctx : Context) (path : Path)
    (payload : List UInt8) (env : Sending) :
    (s.forwardToTarget ctx path payload env).session.replies = s.replies ∧
      (s.forwardToTarget ctx path payload env).session.quarterStreamId = s.quarterStreamId := by
  have hsend (s : Session) : (s.sendToTarget ctx path payload env).2.replies = s.replies ∧
      (s.sendToTarget ctx path payload env).2.quarterStreamId = s.quarterStreamId := by
    rw [sendToTarget]
    split <;> exact ⟨rfl, rfl⟩
  rw [forwardToTarget]
  split_ifs
  · exact ⟨rfl, rfl⟩
  · split
    · exact hsend s
    · exact ⟨rfl, rfl⟩
    · split
      · exact ⟨rfl, rfl⟩
      · exact hsend _

/-- The capsules of a chunk answer nothing. -/
theorem handleCapsules_untouched (s : Session) (ctx : Context) (envs : ℕ → Sending) (k : ℕ) :
    (s.handleCapsules ctx envs k).2.replies = s.replies ∧
      (s.handleCapsules ctx envs k).2.quarterStreamId = s.quarterStreamId := by
  fun_induction handleCapsules s ctx envs k with
  | case1 | case2 => exact ⟨rfl, rfl⟩
  | case3 s k contextId payload decoder hnext hcontext ih => exact ih
  | case4 s k contextId payload decoder hnext hcontext handled hstep ih =>
      obtain ⟨hreplies, hquarter⟩ :=
        forwardToTarget_untouched { s with decoder := decoder } ctx .capsule payload (envs k)
      exact ⟨ih.1.trans hreplies, ih.2.trans hquarter⟩
  | case5 s k contextId payload decoder hnext hcontext handled hstep =>
      exact forwardToTarget_untouched { s with decoder := decoder } ctx .capsule payload (envs k)

/-- **What an event adds to the record.** -/
theorem handle_gains (s : Session) (ctx : Context) (event : Event) :
    Gains s (s.handle ctx event).2 event.chunks event.routed
      (event.replies s.quarterStreamId) := by
  cases event with
  | inbound payload env =>
      cases payload with
      | none => exact .nothing rfl rfl rfl rfl
      | some payload =>
          have hkept := ((s.route payload).forwards ctx .datagram payload env).kept
          obtain ⟨hreplies, hquarter⟩ :=
            forwardToTarget_untouched (s.route payload) ctx .datagram payload env
          exact ⟨hkept.chunks.trans (List.append_nil _).symm, hkept.routed,
            hreplies.trans (List.append_nil _).symm, hquarter⟩
  | socket received env =>
      cases received with
      | error error => exact .nothing rfl rfl rfl rfl
      | ok packet =>
          simp only [handle, forwardToClient, Event.replies, Event.chunks, Event.routed]
          cases env.datagramLimit with
          | some limit =>
              simp only
              split
              · rename_i hlarge
                rw [if_pos (show limit < encodedLen s.quarterStreamId _ _ from hlarge)]
                exact .nothing rfl rfl rfl rfl
              · rename_i hfits
                rw [if_neg (show ¬limit < encodedLen s.quarterStreamId _ _ from hfits)]
                exact ⟨(List.append_nil _).symm, (List.append_nil _).symm, rfl, rfl⟩
          | none =>
              cases env.write with
              | ok => exact ⟨(List.append_nil _).symm, (List.append_nil _).symm, rfl, rfl⟩
              | error | elapsed => exact .nothing rfl rfl rfl rfl
  | stream chunk envs =>
      cases chunk with
      | error => exact .nothing rfl rfl rfl rfl
      | fin =>
          simp only [handle, handleStreamChunk]
          split_ifs <;> exact .nothing rfl rfl rfl rfl
      | data bytes =>
          obtain ⟨decoder, heq, -⟩ := (s.push bytes).handleCapsules_eq ctx envs 0
          have hkept := (relayAll_records ctx envs (s.push bytes) 0
            (CapsuleDecoder.loop.drain (s.push bytes).decoder).1).2
          obtain ⟨hreplies, hquarter⟩ := (s.push bytes).handleCapsules_untouched ctx envs 0
          refine ⟨?_, ?_, hreplies.trans (List.append_nil _).symm, hquarter⟩
          · exact (congrArg (fun r : Step × Session => r.2.chunks) heq).trans hkept.chunks
          · exact (congrArg (fun r : Step × Session => r.2.routed) heq).trans
              (hkept.routed.trans (List.append_nil _).symm)

/-- **What a turn adds to the record**: nothing, at or after the deadline. -/
theorem turn_gains (s : Session) (ctx : Context) (now : ℕ) (event : Event) :
    (s.deadline ≤ now → Gains s (s.turn ctx ⟨now, some event⟩).2 [] [] []) ∧
      (now < s.deadline → Gains s (s.turn ctx ⟨now, some event⟩).2 event.chunks event.routed
        (event.replies s.quarterStreamId)) := by
  refine ⟨fun h => ?_, fun h => ?_⟩
  · rw [turn_of_deadline_le h]
    exact .nothing rfl rfl rfl rfl
  · have hgains := s.handle_gains ctx event
    rw [turn, beforeDeadline, if_neg (Nat.not_le.mpr h)]
    simp only
    generalize s.handle ctx event = handled at hgains
    obtain ⟨_ | _ | code, s'⟩ := handled
    · exact hgains
    · exact hgains.signals _
    · exact hgains.signals _

/-- A turn that only finds the session expired closes it. -/
theorem turn_expire (s : Session) (ctx : Context) (now : ℕ) :
    s.turn ctx ⟨now, none⟩ = (false, s.close) := by
  rw [turn, beforeDeadline]
  split_ifs <;> rfl

/-- A session does not go on behind the end of its stream, or an error on it. -/
theorem turn_stream_over (s : Session) (ctx : Context) (now : ℕ) (chunk : Chunk)
    (hchunk : chunk = .fin ∨ chunk = .error) (envs : ℕ → Sending) :
    (s.turn ctx ⟨now, some (.stream chunk envs)⟩).1 = false := by
  rw [turn, beforeDeadline]
  split_ifs
  · rfl
  · rcases hchunk with rfl | rfl
    · simp only [handle, handleStreamChunk]
      split_ifs <;> rfl
    · rfl

/-- The packets that left for the client one way. -/
def repliedBy (s : Session) (path : Path) : List (List UInt8) :=
  (s.replies.filter fun r => r.1 = path).map Prod.snd

end Session

/-- Further replies go behind those of their path. -/
theorem Session.repliedBy_append {s s' : Session} {replies : List (Path × List UInt8)}
    (h : s'.replies = s.replies ++ replies) (path : Path) :
    s'.repliedBy path = s.repliedBy path ++ (replies.filter fun r => r.1 = path).map Prod.snd := by
  rw [repliedBy, h, List.filter_append, List.map_append, repliedBy]

/-! ### The router -/

/-- A receiver as its session has it: what it holds claim of, and what it has read. -/
structure Held (receiver quarterStreamId since : ℕ) (routed : List (List UInt8)) (s : Shared) :
    Prop where
  held : ∃ r, s.receivers[receiver]? = some r ∧ r.quarterStreamId = quarterStreamId ∧
    r.since = since ∧ r.received.map Delivery.payload = routed

variable {receiver q since : ℕ} {routed : List (List UInt8)} {s : Shared}

/-- A receiver that is replaced by one with the same record. -/
theorem Held.set (h : Held receiver q since routed s) {s' : Shared} {i : ℕ} {r r' : Receiver}
    (hi : s.receivers[i]? = some r) (hs' : s'.receivers = s.receivers.set i r')
    (hquarter : r'.quarterStreamId = r.quarterStreamId) (hsince : r'.since = r.since)
    (hreceived : i = receiver → r'.received = r.received) :
    Held receiver q since routed s' := by
  obtain ⟨r₀, hr₀, rfl, rfl, rfl⟩ := h.held
  by_cases hir : receiver = i
  · subst hir
    cases hi.symm.trans hr₀
    refine ⟨r', ?_, hquarter, hsince, congrArg _ (hreceived rfl)⟩
    rw [hs', Slots.getElem?_set hi]
    exact Or.inl ⟨rfl, rfl⟩
  · refine ⟨r₀, ?_, rfl, rfl, rfl⟩
    rw [hs', Slots.getElem?_set hi]
    exact Or.inr ⟨hir, hr₀⟩

/-- **What others do** leaves what a session has read. -/
theorem Held.step (h : Held receiver q since routed s) {action : Shared.Action}
    (hforeign : foreign receiver action = true) : Held receiver q since routed (s.step action) := by
  cases action with
  | register quarterStreamId =>
      rw [Shared.step, Shared.registerDatagrams]
      split
      · exact h
      · obtain ⟨r, hr, hrest⟩ := h.held
        exact ⟨r, Slots.getElem?_concat.mpr (Or.inl hr), hrest⟩
  | deliver decoded =>
      rw [Shared.step, Shared.deliver]
      split_ifs
      · exact ⟨h.held⟩
      · split
        · exact ⟨h.held⟩
        · split
          · rename_i receivers hsend
            obtain ⟨r, hi, -, -, rfl⟩ := Shared.trySend_eq_some hsend
            exact h.set hi rfl rfl rfl fun _ => rfl
          · exact ⟨h.held⟩
  | countDrop k =>
      rw [Shared.step, Shared.countDrop]
      split
      · exact h
      · exact ⟨h.held⟩
  | recv i =>
      rw [Shared.step, Shared.recv]
      split
      · exact h
      · rename_i r hi
        split
        · refine h.set hi rfl rfl rfl fun heq => ?_
          simp [foreign, heq] at hforeign
        · exact h
  | drop i =>
      rw [Shared.step, Shared.drop]
      split
      · exact h
      · rename_i r hi
        split_ifs
        · exact h.set hi rfl rfl rfl fun _ => rfl
        · exact h

/-- Dropping the receiver leaves it too. -/
theorem Held.drop (h : Held receiver q since routed s) :
    Held receiver q since routed (s.drop receiver) := by
  rw [Shared.drop]
  split
  · exact h
  · rename_i r hi
    split_ifs
    · exact h.set hi rfl rfl rfl fun _ => rfl
    · exact h

/-- **What its session reads** is added to what it has read. -/
theorem Held.recv (h : Held receiver q since routed s) :
    Held receiver q since (routed ++ (s.recv receiver).1.toList) (s.recv receiver).2 := by
  obtain ⟨r, hr, rfl, rfl, rfl⟩ := h.held
  rw [Shared.recv, hr]
  simp only
  split
  · rename_i delivery queue hlive hqueue
    refine ⟨{ r with queue := queue, received := r.received ++ [delivery] }, ?_, rfl, rfl, ?_⟩
    · rw [Slots.getElem?_set hr]
      exact Or.inl ⟨rfl, rfl⟩
    · simp
  · exact ⟨r, hr, rfl, rfl, by simp⟩

/-- The UDP payloads among decoded datagrams for a session. -/
def payloadsFor (quarterStreamId : ℕ) (calls : List Datagram) : List (List UInt8) :=
  calls.filterMap fun decoded =>
    if decoded.quarterStreamId = quarterStreamId ∧ decoded.contextId = contextIdUdpPayload then
      some decoded.payload
    else
      none

/-- **What a session has read** was routed to it since it claimed its datagrams, in order. -/
theorem Held.sublist (h : Held receiver q since routed s) {initial : UInt64}
    (hinv : Shared.Inv initial s) :
    routed.Sublist (payloadsFor q (s.calls.drop since)) := by
  obtain ⟨r, hr, rfl, rfl, rfl⟩ := h.held
  have hsound := hinv.sound receiver r hr
  have hgiven : ∀ d ∈ r.received, d ∈ r.given := fun d hd => List.mem_append_left _ hd
  refine Slots.sublist_of_increasing (fun d : Delivery => d.call - r.since) ?_ ?_
  · refine (List.pairwise_append.mp hsound.order).1.imp_of_mem ?_
    intro d d' hd hd' hlt
    have := (hsound.during d (hgiven d hd)).1
    omega
  · intro d hd
    obtain ⟨decoded, hget, hquarter, hcontext, hpayload⟩ := hsound.own d (hgiven d hd)
    have hsince := (hsound.during d (hgiven d hd)).1
    refine ⟨decoded, ?_, ?_⟩
    · rw [List.getElem?_drop, Nat.add_sub_cancel' hsince, hget]
    · rw [if_pos ⟨hquarter, hcontext⟩, hpayload]

namespace Link

open Session (aborts)

/-! ### From the client -/

/-- **What comes from the client**, of a stream with some body: the chunks the session has taken are
a front of the body, and the reader stands behind them. -/
structure FromClient (body : List UInt8) (l : Link ε) : Prop where
  relayed : l.session.Relayed
  running : l.going = true → l.session.Running
  front : l.session.chunks.flatten <+: body
  reader : l.going = true → ∃ m, l.reader.At m ∧ FrameReader.Tunnelled m ∧
    l.session.chunks.flatten ++ FrameReader.bodyOf (l.reader.rest m).out = body

variable {l : Link ε} {body : List UInt8} {ctx : Context}

/-- A turn that takes nothing from the stream. -/
theorem FromClient.settle (h : FromClient body l) (hgoing : l.going = true) {t : Turn}
    (hchunks : (l.session.turn ctx t).2.chunks = l.session.chunks) {l' : Link ε}
    (hreader : l'.reader = l.reader) : FromClient body (l'.settle (l.session.turn ctx t)) := by
  obtain ⟨-, hrelayed, hrunning, -⟩ := (h.running hgoing).turn ctx t
  exact {
    relayed := hrelayed
    running := hrunning
    front := hchunks ▸ h.front
    reader := fun _ => by
      obtain ⟨m, hm, ht, hbody⟩ := h.reader hgoing
      refine ⟨m, ?_, ht, ?_⟩
      · exact hreader ▸ hm
      · rw [show (l'.settle (l.session.turn ctx t)).session.chunks = _ from hchunks,
          show (l'.settle (l.session.turn ctx t)).reader = _ from hreader]
        exact hbody }

/-- A turn that reads the stream. -/
theorem FromClient.stream (h : FromClient body l) (hgoing : l.going = true) {now : ℕ}
    (hnow : now < l.session.deadline) (envs : ℕ → Sending) :
    FromClient body ((l.consume (.stream envs)).settle (l.session.turn ctx
      ⟨now, some (.stream (chunkOf (l.reader.recvData l.others).1) envs)⟩)) := by
  obtain ⟨m, hm, ht, hbody⟩ := h.reader hgoing
  obtain ⟨-, hrelayed, hrunning, -⟩ := (h.running hgoing).turn ctx
    ⟨now, some (.stream (chunkOf (l.reader.recvData l.others).1) envs)⟩
  have hgains := (l.session.turn_gains ctx now
    (.stream (chunkOf (l.reader.recvData l.others).1) envs)).2 hnow
  have hover := fun hchunk => l.session.turn_stream_over ctx now
    (chunkOf (l.reader.recvData l.others).1) hchunk envs
  have hspec := FrameReader.recvData_spec hm ht l.others
  rw [consume]
  generalize l.session.turn ctx _ = ran at hrelayed hrunning hgains hover ⊢
  generalize l.reader.recvData l.others = received at hgains hover hspec ⊢
  have hchunks := hgains.chunks
  have hended : ran.2.chunks = l.session.chunks → ran.1 = false → ∀ l' : Link ε,
      FromClient body (l'.settle ran) := by
    intro hsame hover l'
    exact {
      relayed := hrelayed
      running := hrunning
      front := by
        rw [show (l'.settle ran).session.chunks = _ from hsame]
        exact h.front
      reader := fun hgo => by
        rw [show (l'.settle ran).going = _ from hover] at hgo
        cases hgo }
  obtain ⟨_ | _ | data, reader, others⟩ := received
  · exact hended (hchunks.trans (List.append_nil _)) (hover (Or.inr rfl)) _
  · exact hended (hchunks.trans (List.append_nil _)) (hover (Or.inl rfl)) _
  · obtain ⟨-, hfailure, used, events, m', hm', hused, hfeed, hdata⟩ := hspec
    have ht' := (ht.run used).1
    rw [hfeed] at ht'
    have hbody' : ran.2.chunks.flatten ++ FrameReader.bodyOf (reader.rest m').out = body := by
      rw [← hbody, hchunks, FrameReader.rest_of_used hused hfeed, FrameReader.bodyOf_append, hdata]
      simp [Event.chunks, chunkOf]
    exact {
      relayed := hrelayed
      running := hrunning
      front := by
        rw [← hbody']
        exact List.prefix_append _ _
      reader := fun _ => ⟨m', hm', ht', hbody'⟩ }

/-- Writing leaves the reader of the client's stream. -/
theorem write_reader (l : Link ε) (packet : List UInt8) (env : Replying) (taken : ℕ) :
    (l.write packet env taken).reader = l.reader := by
  rw [write]
  split
  · split_ifs <;> rfl
  · rfl

/-- **A move**, as the session's side of the client has it. -/
theorem FromClient.step (h : FromClient body l) (move : Move) :
    FromClient body (l.step ctx move) := by
  cases move with
  | elsewhere action =>
      rw [Link.step]
      split_ifs
      · exact ⟨h.relayed, h.running, h.front, h.reader⟩
      · exact h
  | expire now =>
      rw [Link.step]
      split_ifs with hgoing
      · exact h.settle hgoing (by rw [Session.turn_expire]; rfl) rfl
      · exact h
  | turn now source =>
      rw [Link.step]
      split
      · rename_i event hgoing hevent
        obtain ⟨hlate, hearly⟩ := l.session.turn_gains ctx now event
        split_ifs with hnow
        · exact h.settle hgoing ((hlate hnow).chunks.trans (List.append_nil _)) rfl
        · have hsame (hquiet : event.chunks = []) :
              (l.session.turn ctx ⟨now, some event⟩).2.chunks = l.session.chunks := by
            rw [(hearly (Nat.lt_of_not_le hnow)).chunks, hquiet, List.append_nil]
          cases source with
          | inbound env =>
              obtain ⟨payload, -, rfl⟩ := Option.map_eq_some_iff.mp hevent
              exact h.settle hgoing (hsame rfl) rfl
          | closed env =>
              cases hevent
              exact h.settle hgoing (hsame rfl) rfl
          | socket received env taken =>
              cases hevent
              cases received with
              | error error => exact h.settle hgoing (hsame rfl) rfl
              | ok packet => exact h.settle hgoing (hsame rfl) (write_reader _ _ _ _)
          | stream envs =>
              cases hevent
              exact h.stream hgoing (Nat.lt_of_not_le hnow) envs
      · exact h

/-! ### To the client -/

/-- **What goes to the client**: the datagrams say what was answered, and what the stream took is a
front of DATA frames that carry the capsules, and all of them unless a write was given up. -/
structure ToClient (q : ℕ) (l : Link ε) : Prop where
  quarter : l.session.quarterStreamId = q
  datagrams : l.datagrams.map Datagram.decode =
    (l.session.repliedBy .datagram).map fun packet => .ok ⟨q, contextIdUdpPayload, packet⟩
  short : ∀ packet ∈ l.capsules, packet.length ≤ maxUdpPayload
  frames : ∃ frames, FrameReader.TunnelFrames frames ∧
    encodeAll WireFrame.encode frames = some (l.wire ++ l.unsent) ∧
    FrameReader.payloads frames = l.capsules.flatMap capsuleOf
  whole : l.unsent = [] → l.capsules = l.session.repliedBy .capsule
  cut : l.unsent ≠ [] →
    l.going = false ∧ (l.failed = true ∨ l.session.signals = aborts .h3RequestCancelled)

variable {q : ℕ}

/-- A session that goes on has nothing outstanding. -/
theorem ToClient.unsent (h : ToClient q l) (hgoing : l.going = true) : l.unsent = [] := by
  by_contra hleft
  rw [(h.cut hleft).1] at hgoing
  cases hgoing

/-- A turn that answers nothing. -/
theorem ToClient.settle (h : ToClient q l) (hgoing : l.going = true) {ran : Bool × Session}
    (hquarter : ran.2.quarterStreamId = l.session.quarterStreamId)
    (hreplies : ran.2.replies = l.session.replies) {l' : Link ε}
    (hdatagrams : l'.datagrams = l.datagrams) (hcapsules : l'.capsules = l.capsules)
    (hwire : l'.wire = l.wire) (hunsent : l'.unsent = l.unsent) :
    ToClient q (l'.settle ran) := by
  have hnone := h.unsent hgoing
  have hreplied (path : Path) : ran.2.repliedBy path = l.session.repliedBy path := by
    rw [Session.repliedBy, hreplies, Session.repliedBy]
  exact {
    quarter := hquarter.trans h.quarter
    datagrams := by
      show l'.datagrams.map Datagram.decode = (ran.2.repliedBy .datagram).map _
      rw [hdatagrams, hreplied]
      exact h.datagrams
    short := by
      show ∀ packet ∈ l'.capsules, _
      rw [hcapsules]
      exact h.short
    frames := by
      show ∃ frames, _ ∧ encodeAll WireFrame.encode frames = some (l'.wire ++ l'.unsent) ∧
        FrameReader.payloads frames = l'.capsules.flatMap capsuleOf
      rw [hwire, hunsent, hcapsules]
      exact h.frames
    whole := fun _ => by
      show l'.capsules = ran.2.repliedBy .capsule
      rw [hcapsules, hreplied]
      exact h.whole hnone
    cut := fun hleft => absurd (hunsent.trans hnone) hleft }

/-- A capsule of a packet that UDP can carry. -/
theorem encode_capsuleOf {packet : List UInt8} (h : packet.length ≤ maxUdpPayload) :
    WireCapsule.encode (.datagram contextIdUdpPayload packet) = some (capsuleOf packet) ∧
      (capsuleOf packet).length ≤ varintMax := by
  have hadm : (WireCapsule.datagram contextIdUdpPayload packet).Admissible := ⟨by decide, h⟩
  obtain ⟨bytes, hbytes⟩ := hadm.exists_encode
  have hcapsule : capsuleOf packet = bytes := by
    rw [capsuleOf, show encodeDatagram contextIdUdpPayload packet = some bytes from hbytes,
      Option.getD_some]
  rw [hcapsule]
  refine ⟨hbytes, ?_⟩
  simp only [WireCapsule.encode, encodeDatagram, bind, Option.bind_eq_some_iff, pure,
    Option.some.injEq] at hbytes
  obtain ⟨kind, hkind, length, hlength, context, hcontext, rfl⟩ := hbytes
  have hk := WireCapsule.varintLen_le capsuleTypeDatagram
  have hl := WireCapsule.varintLen_le (varintLen contextIdUdpPayload + packet.length)
  have hc := WireCapsule.varintLen_le contextIdUdpPayload
  rw [List.length_append, List.length_append, List.length_append, length_putVarint hkind,
    length_putVarint hlength, length_putVarint hcontext]
  have hmax : 3 * varintMaxLen + maxUdpPayload ≤ varintMax := by decide
  omega

/-- A packet that goes as a capsule. -/
theorem ToClient.capsule (h : ToClient q l) (hgoing : l.going = true) {packet : List UInt8}
    (hshort : packet.length ≤ maxUdpPayload) (taken : ℕ) :
    ∃ frames, FrameReader.TunnelFrames frames ∧
      encodeAll WireFrame.encode frames =
        some (l.wire ++ (FrameReader.dataFrame (capsuleOf packet)).take taken ++
          (l.unsent ++ (FrameReader.dataFrame (capsuleOf packet)).drop taken)) ∧
      FrameReader.payloads frames = (l.capsules ++ [packet]).flatMap capsuleOf := by
  obtain ⟨frames, hframes, henc, hpayloads⟩ := h.frames
  have hnone := h.unsent hgoing
  rw [hnone, List.append_nil] at henc
  obtain ⟨hframes', henc', hpayloads'⟩ :=
    FrameReader.frames_concat hframes henc (encode_capsuleOf hshort).2
  refine ⟨_, hframes', ?_, ?_⟩
  · rw [henc', hnone, List.nil_append, List.append_assoc, List.take_append_drop]
  · rw [hpayloads', hpayloads, List.flatMap_append]
    simp

/-- A capsule write that is given up ends the session. -/
theorem turn_givenUp (hrunning : l.session.Running) {now : ℕ} (hnow : now < l.session.deadline)
    (ctx : Context) (packet : List UInt8) {env : Replying} (hlimit : env.datagramLimit = none)
    (hwrite : env.write ≠ .ok) :
    (l.session.turn ctx ⟨now, some (.socket (.ok packet) env)⟩).1 = false ∧
      (env.write = .error ∨
        (l.session.turn ctx ⟨now, some (.socket (.ok packet) env)⟩).2.signals =
          aborts .h3RequestCancelled) := by
  have hevent : l.session.beforeDeadline ⟨now, some (.socket (.ok packet) env)⟩ =
      some (.socket (.ok packet) env) := if_neg (Nat.not_le.mpr hnow)
  obtain ⟨-, -, -, hverdict⟩ := hrunning.turn ctx ⟨now, some (.socket (.ok packet) env)⟩
  have hover : (l.session.turn ctx ⟨now, some (.socket (.ok packet) env)⟩).1 = false := by
    rw [Session.turn, hevent]
    simp only [Session.handle, Session.forwardToClient, hlimit]
    cases henv : env.write with
    | ok => exact absurd henv hwrite
    | error | elapsed => rfl
  refine ⟨hover, ?_⟩
  cases henv : env.write with
  | ok => exact absurd henv hwrite
  | error => exact Or.inl rfl
  | elapsed =>
      exact Or.inr (hverdict.requestCancelled.mpr ⟨_, hevent, hlimit, henv⟩).2

/-- A turn that answers the target's packet. -/
theorem ToClient.reply (h : ToClient q l) (hq : q ≤ maxQuarterStreamId) (hgoing : l.going = true)
    (hrunning : l.session.Running) {now : ℕ} (hnow : now < l.session.deadline)
    {packet : List UInt8} (hshort : packet.length ≤ maxUdpPayload) (env : Replying) (taken : ℕ) :
    ToClient q ((l.write packet env taken).settle
      (l.session.turn ctx ⟨now, some (.socket (.ok packet) env)⟩)) := by
  have hgains := (l.session.turn_gains ctx now (.socket (.ok packet) env)).2 hnow
  have hgivenUp := @turn_givenUp _ l hrunning now hnow ctx packet env
  generalize l.session.turn ctx _ = ran at hgains hgivenUp ⊢
  have hreplies := hgains.replies
  have hquarter := hgains.quarterStreamId.trans h.quarter
  have hnone := h.unsent hgoing
  rw [write]
  cases hlimit : env.datagramLimit with
  | some limit =>
      simp only [Event.replies, hlimit] at hreplies
      simp only
      split_ifs at hreplies ⊢ with hlarge
      · exact h.settle hgoing hgains.quarterStreamId (hreplies.trans (List.append_nil _))
          rfl rfl rfl rfl
      · obtain ⟨bytes, hbytes⟩ :=
          Datagram.exists_encode hq (show contextIdUdpPayload ≤ varintMax by decide) packet
        have hencode : Datagram.encodeUdpPayload l.session.quarterStreamId packet = some bytes := by
          rw [h.quarter]
          exact hbytes
        exact {
          quarter := hquarter
          datagrams := by
            simp only [Link.settle, hencode, Option.toList_some, List.map_append, h.datagrams,
              List.map_cons, List.map_nil, Datagram.decode_encode hq hbytes,
              Session.repliedBy_append hreplies]
            simp
          short := h.short
          frames := h.frames
          whole := fun _ => by
            simp only [Link.settle, Session.repliedBy_append hreplies, h.whole hnone]
            simp
          cut := fun hleft => absurd hnone hleft }
  | none =>
      simp only [Event.replies, hlimit] at hreplies
      have hframe := FrameReader.dataFrame_ne_nil (encode_capsuleOf hshort).2
      have hdatagrams : ran.2.repliedBy .datagram = l.session.repliedBy .datagram := by
        rw [Session.repliedBy_append hreplies]
        split_ifs <;> simp
      have hshort' : ∀ packet' ∈ l.capsules ++ [packet], packet'.length ≤ maxUdpPayload := by
        intro packet' hmem
        rcases List.mem_append.mp hmem with hmem | hmem
        · exact h.short packet' hmem
        · rw [List.mem_singleton.mp hmem]
          exact hshort
      simp only
      by_cases hwrite : env.write = .ok
      · rw [if_pos hwrite] at hreplies ⊢
        exact {
          quarter := hquarter
          datagrams := by
            simp only [Link.settle, hdatagrams, h.datagrams]
          short := hshort'
          frames := h.capsule hgoing hshort _
          whole := fun _ => by
            simp only [Link.settle, Session.repliedBy_append hreplies, h.whole hnone]
            simp
          cut := fun hleft => by
            refine absurd ?_ hleft
            simp [Link.settle, hnone] }
      · rw [if_neg hwrite]
        have hlt : min taken ((FrameReader.dataFrame (capsuleOf packet)).length - 1) <
            (FrameReader.dataFrame (capsuleOf packet)).length := by
          have := List.length_pos_of_ne_nil hframe
          omega
        obtain ⟨hover, hending⟩ := hgivenUp hlimit hwrite
        exact {
          quarter := hquarter
          datagrams := by
            simp only [Link.settle, hdatagrams, h.datagrams]
          short := hshort'
          frames := h.capsule hgoing hshort _
          whole := fun hwhole => by
            have hdrop : (FrameReader.dataFrame (capsuleOf packet)).drop
                (min taken ((FrameReader.dataFrame (capsuleOf packet)).length - 1)) = [] :=
              (List.append_eq_nil_iff.mp hwhole).2
            rw [List.drop_eq_nil_iff] at hdrop
            omega
          cut := fun _ => by
            refine ⟨hover, hending.imp (fun herror => ?_) id⟩
            simp [Link.settle, herror] }

/-- **A move**, as the writing side has it. -/
theorem ToClient.step (h : ToClient q l) (hq : q ≤ maxQuarterStreamId)
    (hrunning : l.going = true → l.session.Running) (move : Move) :
    ToClient q (l.step ctx move) := by
  cases move with
  | elsewhere action =>
      rw [Link.step]
      split_ifs
      · exact ⟨h.quarter, h.datagrams, h.short, h.frames, h.whole, h.cut⟩
      · exact h
  | expire now =>
      rw [Link.step]
      split_ifs with hgoing
      · rw [Session.turn_expire]
        exact h.settle hgoing rfl rfl rfl rfl rfl rfl
      · exact h
  | turn now source =>
      rw [Link.step]
      split
      · rename_i event hgoing hevent
        obtain ⟨hlate, hearly⟩ := l.session.turn_gains ctx now event
        split_ifs with hnow
        · have hgains := hlate hnow
          exact h.settle hgoing hgains.quarterStreamId (hgains.replies.trans (List.append_nil _))
            rfl rfl rfl rfl
        · have hnow' := Nat.lt_of_not_le hnow
          have hgains := hearly hnow'
          have hquiet (hreplies : event.replies l.session.quarterStreamId = []) :
              (l.session.turn ctx ⟨now, some event⟩).2.replies = l.session.replies := by
            rw [hgains.replies, hreplies, List.append_nil]
          cases source with
          | inbound env =>
              obtain ⟨payload, -, rfl⟩ := Option.map_eq_some_iff.mp hevent
              exact h.settle hgoing hgains.quarterStreamId (hquiet rfl) rfl rfl rfl rfl
          | closed env =>
              cases hevent
              exact h.settle hgoing hgains.quarterStreamId (hquiet rfl) rfl rfl rfl rfl
          | stream envs =>
              cases hevent
              exact h.settle hgoing hgains.quarterStreamId (hquiet rfl) rfl rfl rfl rfl
          | socket received env taken =>
              cases hevent
              cases received with
              | error error =>
                  exact h.settle hgoing hgains.quarterStreamId (hquiet rfl) rfl rfl rfl rfl
              | ok packet =>
                  exact h.reply hq hgoing (hrunning hgoing) hnow'
                    (List.length_take_le maxUdpPayload packet) env taken
      · exact h

/-! ### From the router -/

/-- **What comes from the router**: what the session has taken is what its receiver was read for. -/
structure FromRouter (initial : UInt64) (q since : ℕ) (l : Link ε) : Prop where
  shared : Shared.Inv initial l.shared
  held : Held l.receiver q since l.session.routed l.shared

variable {initial : UInt64} {since : ℕ}

/-- A turn, of which the receiver has what the session has taken. -/
theorem FromRouter.settle {ran : Bool × Session} (hshared : Shared.Inv initial l.shared)
    (hheld : Held l.receiver q since ran.2.routed l.shared) :
    FromRouter initial q since (l.settle ran) where
  shared := by
    rw [Link.settle]
    split_ifs
    · exact hshared
    · exact hshared.drop l.receiver
  held := by
    rw [Link.settle]
    split_ifs
    · exact hheld
    · exact hheld.drop

/-- Writing leaves the router of the client's datagrams. -/
theorem write_router (l : Link ε) (packet : List UInt8) (env : Replying) (taken : ℕ) :
    (l.write packet env taken).shared = l.shared ∧
      (l.write packet env taken).receiver = l.receiver := by
  rw [write]
  split
  · split_ifs <;> exact ⟨rfl, rfl⟩
  · exact ⟨rfl, rfl⟩

/-- **A move**, as the router has it. -/
theorem FromRouter.step (h : FromRouter initial q since l) (move : Move) :
    FromRouter initial q since (l.step ctx move) := by
  cases move with
  | elsewhere action =>
      rw [Link.step]
      split_ifs with hforeign
      · exact ⟨h.shared.step action, h.held.step hforeign⟩
      · exact h
  | expire now =>
      rw [Link.step]
      split_ifs
      · rw [Session.turn_expire]
        exact .settle h.shared h.held
      · exact h
  | turn now source =>
      rw [Link.step]
      split
      · rename_i event hgoing hevent
        obtain ⟨hlate, hearly⟩ := l.session.turn_gains ctx now event
        split_ifs with hnow
        · refine .settle h.shared ?_
          rw [(hlate hnow).routed, List.append_nil]
          exact h.held
        · have hrouted := (hearly (Nat.lt_of_not_le hnow)).routed
          have hquiet (hnone : event.routed = []) : Held l.receiver q since
              (l.session.turn ctx ⟨now, some event⟩).2.routed l.shared := by
            rw [hrouted, hnone, List.append_nil]
            exact h.held
          cases source with
          | inbound env =>
              obtain ⟨payload, hrecv, rfl⟩ := Option.map_eq_some_iff.mp hevent
              have hheld := h.held.recv
              rw [hrecv] at hheld
              refine .settle (l := l.consume (.inbound env)) (h.shared.recv l.receiver) ?_
              rw [hrouted]
              exact hheld
          | closed env =>
              cases hevent
              exact .settle h.shared (hquiet rfl)
          | stream envs =>
              cases hevent
              exact .settle (l := l.consume (.stream envs)) h.shared (hquiet rfl)
          | socket received env taken =>
              cases hevent
              cases received with
              | error error => exact .settle h.shared (hquiet rfl)
              | ok packet =>
                  obtain ⟨hshared, hreceiver⟩ :=
                    l.write_router (packet.take maxUdpPayload) env taken
                  refine .settle (l := l.write (packet.take maxUdpPayload) env taken) ?_ ?_
                  · rw [hshared]
                    exact h.shared
                  · rw [hshared, hreceiver]
                    exact hquiet rfl
      · exact h

/-! ### Runs -/

/-- **What holds of a session in its connection in every run.** -/
structure Inv (initial : UInt64) (q since : ℕ) (body : List UInt8) (l : Link ε) : Prop where
  router : FromRouter initial q since l
  client : FromClient body l
  toClient : ToClient q l

/-- **Every move keeps it.** -/
theorem Inv.step (h : Inv initial q since body l) (hq : q ≤ maxQuarterStreamId) (move : Move) :
    Inv initial q since body (l.step ctx move) :=
  ⟨h.router.step move, h.client.step move, h.toClient.step hq h.client.running move⟩

/-- **Run lemma**: the invariant holds after every list of moves. -/
theorem Inv.run (h : Inv initial q since body l) (hq : q ≤ maxQuarterStreamId) (ctx : Context)
    (moves : List Move) : Inv initial q since body (l.run ctx moves) :=
  History.run_invariant (fun _ move hinv => hinv.step hq move) h moves

/-- A session begins with nothing taken and nothing written. -/
theorem inv_start {s shared : Shared} (hs : Shared.Inv initial s) {receiver : ℕ}
    (hclaim : s.registerDatagrams q = (some receiver, shared)) (ctx : Context) (now : ℕ)
    {reader : FrameReader ε} {m : FrameMachine} (hm : reader.BetweenFrames m) (others : Others) :
    Inv initial q s.calls.length (FrameReader.bodyOf (reader.rest m).out)
      (start shared receiver (Session.new ctx q now) reader others) where
  router := by
    have hshared := hs.register q
    rw [hclaim] at hshared
    refine ⟨hshared, ?_⟩
    rw [Shared.registerDatagrams] at hclaim
    split at hclaim
    · cases hclaim
    · cases hclaim
      exact ⟨_, Slots.getElem?_concat.mpr (Or.inr ⟨rfl, rfl⟩), rfl, rfl, rfl⟩
  client := {
    relayed := (Session.running_new ctx q now).toRelayed
    running := fun _ => Session.running_new ctx q now
    front := List.nil_prefix
    reader := fun _ => ⟨m, hm.at_machine, hm.tunnelled, rfl⟩ }
  toClient := {
    quarter := rfl
    datagrams := rfl
    short := by simp [start]
    frames := ⟨[], by simp [FrameReader.TunnelFrames], rfl, rfl⟩
    whole := fun _ => rfl
    cut := fun hleft => absurd rfl hleft }

end Link

/-- What is decoded of a front is a front of what is decoded. -/
theorem decode_of_front {chunks chunks' : List (List UInt8)}
    (h : chunks.flatten <+: chunks'.flatten) :
    (CapsuleDecoder.new.decode chunks).1 <+: (CapsuleDecoder.new.decode chunks').1 := by
  obtain ⟨back, hback⟩ := h
  have hwhole : (chunks ++ [back]).flatten = chunks'.flatten := by simp [hback]
  rw [CapsuleDecoder.decode_eq chunks', ← hwhole, ← CapsuleDecoder.decode_eq,
    CapsuleDecoder.decode_concat]
  exact List.prefix_append _ _

/-- And so are the payloads. -/
theorem udpPayloads_of_front {outs outs' : List (Except CapsuleError Capsule)}
    (h : outs <+: outs') : udpPayloads outs <+: udpPayloads outs' :=
  h.filterMap _

/-- Capsules of packets that UDP can carry are read back. -/
theorem decode_capsules {packets : List (List UInt8)}
    (h : ∀ packet ∈ packets, packet.length ≤ maxUdpPayload) {chunks : List (List UInt8)}
    (hchunks : chunks.flatten = packets.flatMap capsuleOf) :
    udpPayloads (CapsuleDecoder.new.decode chunks).1 = packets ∧
      (CapsuleDecoder.new.decode chunks).2.atCapsuleBoundary = true := by
  have hadm : ∀ c ∈ packets.map (WireCapsule.datagram contextIdUdpPayload), c.Admissible := by
    intro c hc
    obtain ⟨packet, hmem, rfl⟩ := List.mem_map.mp hc
    exact ⟨by decide, h packet hmem⟩
  have henc : encodeAll WireCapsule.encode
      (packets.map (WireCapsule.datagram contextIdUdpPayload)) =
        some (packets.flatMap capsuleOf) := by
    clear hchunks hadm
    induction packets with
    | nil => rfl
    | cons packet packets ih =>
        rw [List.map_cons, encodeAll_cons_eq_some]
        exact ⟨_, _, (Link.encode_capsuleOf (h packet List.mem_cons_self)).1,
          ih fun p hp => h p (List.mem_cons_of_mem _ hp), List.flatMap_cons⟩
  rw [CapsuleDecoder.decode_eq, hchunks, WireCapsule.drain_encodeAll hadm henc]
  refine ⟨?_, rfl⟩
  rw [udpPayloads, List.filterMap_map, List.filterMap_flatMap, List.flatMap_map]
  exact List.flatMap_singleton' packets

/-- **A CONNECT-UDP session over the wire.** Let a request stream begin with a request that is
returned, and a session claim the datagrams of the stream, in a connection that other sessions use
as they like. In every run:

* what the target is sent was routed to this session since its claim, or is a UDP payload among the
  capsules of its own stream, in that order on each of the two ways;
* every datagram that was given to the connection decodes to the packet of the target it answers,
  under this session's ID, in order;
* whatever part of the response a peer reads, the capsules in it are a front of those the session
  wrote; and when the session closed tidily and no write failed under it, all of the response is all
  of them, and ends between two. -/
theorem relayed_over_the_wire {recv : RecvStream ε} {others : Others} {request : Request}
    {reader : FrameReader ε} {left : Others}
    (hread : (FrameReader.withKind recv .request).readRequest others = (.ok request, reader, left))
    {initial : UInt64} {actions : List Shared.Action} {q receiver : ℕ} {shared : Shared}
    (hq : q ≤ maxQuarterStreamId)
    (hclaim : (Shared.run initial actions).registerDatagrams q = (some receiver, shared))
    {ctx : Context} {now : ℕ} {moves : List Move} {l : Link ε}
    (hrun : (Link.start shared receiver (Session.new ctx q now) reader.split left).run ctx moves =
      l)
    (others' : Others) :
    (l.session.sentBy .datagram).Sublist
      (payloadsFor q (l.shared.calls.drop (Shared.run initial actions).calls.length)) ∧
    (l.session.sentBy .capsule).Sublist
      (udpPayloads (CapsuleDecoder.new.decode (reader.split.recvAll others').1).1) ∧
    l.datagrams.map Datagram.decode =
      (l.session.repliedBy .datagram).map (fun packet => .ok ⟨q, contextIdUdpPayload, packet⟩) ∧
    ∀ (ε' : Type) (peer : RecvStream ε') (others'' : Others), peer.chunks.flatten <+: l.wire →
      udpPayloads (CapsuleDecoder.new.decode
        ((FrameReader.withKind peer .tunnel).recvAll others'').1).1 <+: l.capsules ∧
      (l.session.signals = Session.closes → l.failed = false → peer.chunks.flatten = l.wire →
        udpPayloads (CapsuleDecoder.new.decode
            ((FrameReader.withKind peer .tunnel).recvAll others'').1).1 =
          l.session.repliedBy .capsule ∧
        (CapsuleDecoder.new.decode
          ((FrameReader.withKind peer .tunnel).recvAll others'').1).2.atCapsuleBoundary = true ∧
        ((FrameReader.withKind peer .tunnel).recvAll others'').2 =
          peer.failure.map .transport) := by
  subst hrun
  obtain ⟨m, hm⟩ := FrameReader.split_between hread
  have h := (Link.inv_start (Shared.inv_run initial actions) hclaim ctx now hm left).run hq ctx
    moves
  generalize Link.run ctx _ moves = l at h
  obtain ⟨hflat, -, -⟩ := FrameReader.recvAll_spec hm.at_machine hm.tunnelled others'
  refine ⟨?_, ?_, h.toClient.datagrams, fun ε' peer others'' hpeer => ?_⟩
  · exact h.client.relayed.datagram.trans (h.router.held.sublist h.router.shared)
  · have hfront := h.client.front
    rw [← hflat] at hfront
    exact h.client.relayed.capsule.trans (udpPayloads_of_front (decode_of_front hfront)).sublist
  · obtain ⟨frames, hframes, henc, hpayloads⟩ := h.toClient.frames
    have hbetween : (FrameReader.withKind peer .tunnel).BetweenFrames (FrameMachine.new .tunnel) :=
      ⟨FrameReader.at_withKind peer .tunnel, rfl, rfl⟩
    refine ⟨?_, fun hclosed hfailed hwhole => ?_⟩
    · obtain ⟨back, hback⟩ := hpeer
      rw [← hback, List.append_assoc] at henc
      have hread := (hbetween.recvAll_front hframes henc others'').1
      rw [hpayloads] at hread
      have hwritten : [l.capsules.flatMap capsuleOf].flatten = l.capsules.flatMap capsuleOf :=
        List.flatten_singleton
      rw [← hwritten] at hread
      have hdecoded := udpPayloads_of_front (decode_of_front hread)
      rw [(decode_capsules h.toClient.short hwritten).1] at hdecoded
      exact hdecoded
    · have hunsent : l.unsent = [] := by
        by_contra hleft
        rcases (h.toClient.cut hleft).2 with hfailed' | haborted
        · rw [hfailed] at hfailed'
          cases hfailed'
        · rw [hclosed] at haborted
          exact Session.aborts_ne_closes _ haborted.symm
      rw [hunsent, List.append_nil, ← hwhole] at henc
      obtain ⟨hread, hend⟩ := hbetween.recvAll_whole hframes henc others''
      obtain ⟨hcapsules, hboundary⟩ :=
        decode_capsules h.toClient.short (hread.trans hpayloads)
      exact ⟨hcapsules.trans (h.toClient.whole hunsent), hboundary, hend⟩

/-- A payload of one byte for the target, another session's in between, and one of one byte for the
client, in a capsule. -/
theorem relayed_over_the_wire_once :
    udpPayloads (CapsuleDecoder.new.decode ((FrameReader.withKind (ε := Empty)
        ⟨[[0x00, 0x04, 0x00], [0x02, 0x00, 0x6f]], none⟩ .tunnel).recvAll fun _ => 0).1).1 =
      [[0x6f]] := by
  have hstream : (RecvStream.mk (ε := Empty)
      [[0x01, 0x08, 0x00, 0x00, 0xcf, 0x50, 0x03, 0x61, 0x3a, 0x31]] none).chunks.flatten =
      [0x01, 0x08, 0x00, 0x00, 0xcf, 0x50, 0x03, 0x61, 0x3a, 0x31] ++ [] := rfl
  obtain ⟨request, reader, left, hread, -, -⟩ := FrameReader.readRequest_connect hstream
  have hclaim : (Shared.run 0 []).registerDatagrams 0 =
      (some 0, ((Shared.run 0 []).registerDatagrams 0).2) := rfl
  have h := (relayed_over_the_wire hread (by decide) hclaim (Eq.refl ((Link.start _ 0
    (Session.new (Context.new 8 30) 0 0) reader.split left).run (Context.new 8 30)
    [.elsewhere (.deliver ⟨0, 0, [0x68]⟩), .elsewhere (.deliver ⟨1, 0, [0x69]⟩),
      .turn 1 (.inbound ⟨64, .ok (), 1⟩), .turn 2 (.socket (.ok [0x6f]) ⟨63, 2, none, .ok⟩ 0),
      .expire 32])) fun _ => 0).2.2.2 Empty
    ⟨[[0x00, 0x04, 0x00], [0x02, 0x00, 0x6f]], none⟩ (fun _ => 0) List.prefix_rfl
  exact (h.2 rfl rfl rfl).1

end Udp

end Volto
