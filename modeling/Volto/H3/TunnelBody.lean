import Volto.H3.FrameVerdicts
import Volto.H3.ReadRequest

/-!
# The Body of a Tunnel

`Stream::split` and `Reader::recv_data` of `h3/stream.rs`. Once a CONNECT has been answered its
stream carries DATA and nothing else: unknown frames are passed over, an empty DATA frame says
nothing, and every other frame is a connection error.

A tunnel buffers nothing, so what it reads does not depend on the other streams at all.

## Main results

* `recvAll_spec`: what a reader delivers until it is told to stop.
* `tunnel_over_the_wire`: a request and the body behind it, read off one stream.
-/

namespace Volto

open Framing Incremental

namespace FrameReader

open FrameMachine (feed)

variable {ε : Type}

/-- The receiving half of a split request stream: from here on only DATA may follow. -/
def split (r : FrameReader ε) : FrameReader ε :=
  { r with decoder := r.decoder.connectCompleted }

/-- A frame other than DATA on a tunnel. -/
def nonDataFrame : Violation :=
  Violation.connection Code.h3FrameUnexpected nonDataFrameOnATunnel

/-- What one call of `recv_data` returns, with the reader it leaves and the calls still to come. -/
abbrev Received (ε : Type) :=
  Except (ReadError ε) (Option (List UInt8)) × FrameReader ε × Others

/-- Reads the next chunk of body data. -/
def recvData (r : FrameReader ε) (others : Others) : Received ε :=
  match _h : r.nextAmong others with
  | (.error error, r, others) => (.error error, r, others)
  | (.ok none, r, others) => (.ok none, r, others)
  | (.ok (some (.skipped _)), r', others') => r'.recvData others'
  | (.ok (some (.data [])), r', others') => r'.recvData others'
  | (.ok (some (.data (byte :: bytes))), r, others) => (.ok (some (byte :: bytes)), r, others)
  | (.ok (some (.frame _)), r, others) => (.error (.violation nonDataFrame), r, others)
termination_by (r.recv.chunks.length, r.decoder.weight)
decreasing_by all_goals exact Prod.lex_def.mpr (behind_nextAmong _h)

/-- Having less to do than one that has less to do. -/
theorem Behind.trans {r r' r'' : FrameReader ε} (h : r.Behind r') (h' : r'.Behind r'') :
    r.Behind r'' := by
  rcases h with h | ⟨h, hw⟩ <;> rcases h' with h' | ⟨h', hw'⟩
  · exact Or.inl (h'.trans h)
  · exact Or.inl (h'.trans_lt h)
  · exact Or.inl (h'.trans_eq h)
  · exact Or.inr ⟨h'.trans h, hw'.trans hw⟩

/-- A call that delivers a chunk has something done. -/
theorem behind_recvData {r : FrameReader ε} {others : Others} {data : List UInt8}
    (h : (r.recvData others).1 = .ok (some data)) : r.Behind (r.recvData others).2.1 := by
  fun_induction recvData r others with
  | case1 => cases h
  | case2 => cases h
  | case3 r others kind r' others' hcall ih => exact (behind_nextAmong hcall).trans (ih h)
  | case4 r others r' others' hcall ih => exact (behind_nextAmong hcall).trans (ih h)
  | case5 r others byte bytes r' others' hcall => exact behind_nextAmong hcall
  | case6 => cases h

/-- Calling `recv_data` until it delivers nothing: the chunks, and the error it ended with. -/
def recvAll (r : FrameReader ε) (others : Others) : List (List UInt8) × Option (ReadError ε) :=
  match _h : r.recvData others with
  | (.ok (some data), r', others') =>
      (data :: (r'.recvAll others').1, (r'.recvAll others').2)
  | (.ok none, _, _) => ([], none)
  | (.error error, _, _) => ([], some error)
termination_by (r.recv.chunks.length, r.decoder.weight)
decreasing_by
  all_goals
    have hbehind := @behind_recvData ε r others data
    rw [_h] at hbehind
    exact Prod.lex_def.mpr (hbehind rfl)

/-! ### What the bytes say -/

/-- How a body ends: with the machine's violation, with the transport's error, in the middle of a
frame, or cleanly. -/
def bodyEnding (failure : Option ε) (o : FrameMachine.Step) : Option (ReadError ε) :=
  match o.error, failure with
  | some violation, _ => some (.violation violation)
  | none, some error => some (.transport error)
  | none, none =>
      if o.state.position = .header [] then none else some (.violation endedMidFrame)

/-- A machine on a tunnel that is not in the middle of a buffered frame. -/
structure Tunnelled (m : FrameMachine) : Prop where
  stream : m.stream = .tunnel
  position : ∀ kind payload more, m.position ≠ .buffering kind payload more

/-- On a tunnel any number of frames may be skipped. -/
theorem Tunnelled.finishSkip {m : FrameMachine} (h : Tunnelled m) (kind : ℕ) :
    m.finishSkip kind =
      ⟨[.skipped kind], { m.atBoundary with skipped := m.skippedNext }, none⟩ := by
  refine FrameMachine.finishSkip_of_lt kind fun hrequest => ?_
  rw [h.stream] at hrequest
  cases hrequest

/-- A byte of a tunnel is no part of a frame that is buffered. -/
theorem Tunnelled.step {m : FrameMachine} (h : Tunnelled m) (byte : UInt8) :
    Tunnelled (m.feed byte).state ∧ ∀ frame, .frame frame ∉ (m.feed byte).out := by
  rw [FrameMachine.feed]
  rcases hposition : m.position with
    bytes | (_ | more) | ⟨kind, payload, more⟩ | ⟨kind, _ | more⟩
  · simp only
    cases hpeek : Frame.peekHeader (bytes ++ [byte]) with
    | none => exact ⟨⟨h.stream, by simp [Outcome.idle]⟩, by simp [Outcome.idle]⟩
    | some header =>
        obtain ⟨kind, length⟩ := header
        simp only [FrameMachine.announce]
        cases hbegin : Frame.begin m.stream kind length with
        | error violation =>
            exact ⟨⟨h.stream, by simp [FrameMachine.atBoundary]⟩, by simp⟩
        | ok state =>
            rcases state with _ | (_ | more) | ⟨kind, remaining⟩ | ⟨kind, _ | more⟩
            · exact absurd hbegin Frame.begin_ne_header
            · exact ⟨⟨h.stream, by simp [FrameMachine.enter, FrameMachine.atBoundary]⟩,
                by simp [FrameMachine.enter]⟩
            · exact ⟨⟨h.stream, by simp [FrameMachine.enter, Outcome.idle]⟩,
                by simp [FrameMachine.enter, Outcome.idle]⟩
            · obtain ⟨rfl, -, -, -, hmis⟩ := Frame.begin_eq_buffering hbegin
              have hsome := FrameDecoder.misplaced_tunnel kind
              rw [← h.stream, hmis] at hsome
              cases hsome
            · simp only [FrameMachine.enter, h.finishSkip]
              exact ⟨⟨h.stream, by simp [FrameMachine.atBoundary]⟩, by simp⟩
            · exact ⟨⟨h.stream, by simp [FrameMachine.enter, Outcome.idle]⟩,
                by simp [FrameMachine.enter, Outcome.idle]⟩
  · exact ⟨⟨h.stream, by simp [FrameMachine.atBoundary]⟩, by simp⟩
  · exact ⟨⟨h.stream, by simp⟩, by simp⟩
  · exact absurd hposition (h.position _ _ _)
  · simp only [h.finishSkip]
    exact ⟨⟨h.stream, by simp [FrameMachine.atBoundary]⟩, by simp⟩
  · exact ⟨⟨h.stream, by simp [Outcome.idle]⟩, by simp [Outcome.idle]⟩

/-- Neither are more of them. -/
theorem Tunnelled.run {m : FrameMachine} (h : Tunnelled m) (bytes : List UInt8) :
    Tunnelled (feedAll feed m bytes).state ∧
      ∀ frame, .frame frame ∉ (feedAll feed m bytes).out := by
  induction bytes generalizing m with
  | nil => exact ⟨h, by simp [Outcome.idle]⟩
  | cons byte bytes ih =>
      obtain ⟨hstate, hout⟩ := h.step byte
      obtain ⟨hstate', hout'⟩ := ih hstate
      rw [feedAll_cons, Outcome.andThen]
      split
      · exact ⟨hstate, hout⟩
      · refine ⟨hstate', fun frame hmem => ?_⟩
        rcases List.mem_append.mp hmem with hmem | hmem
        · exact hout frame hmem
        · exact hout' frame hmem

/-- The body bytes among what the machine reports. -/
def bodyOf (events : List Event) : List UInt8 :=
  events.flatMap Item.byteOf

/-- The bodies of two runs of events join. -/
theorem bodyOf_append (events events' : List Event) :
    bodyOf (events ++ events') = bodyOf events ++ bodyOf events' :=
  List.flatMap_append

/-- What `recv_data` takes off a tunnel: a chunk that is not empty, with the bytes it stands for;
nothing, at the end; or the error the body ends with. -/
def Delivers (r : FrameReader ε) (m : FrameMachine)
    (result : Except (ReadError ε) (Option (List UInt8))) (r' : FrameReader ε) : Prop :=
  match result with
  | .ok (some data) => data ≠ [] ∧ r'.recv.failure = r.recv.failure ∧ ∃ used events m', r'.At m' ∧
      r.unread = used ++ r'.unread ∧ feedAll feed m used = ⟨events, m', none⟩ ∧
      bodyOf events = data
  | .ok none => bodyOf (r.rest m).out = [] ∧ bodyEnding r.recv.failure (r.rest m) = none
  | .error error =>
      bodyOf (r.rest m).out = [] ∧ bodyEnding r.recv.failure (r.rest m) = some error

/-- A call that returns no item has come to the end of the body. -/
theorem delivers_end {r r' : FrameReader ε} {m : FrameMachine} :
    (r.Takes m (.ok none) r' → r.Delivers m (.ok none) r') ∧
      ∀ error, r.Takes m (.error error) r' → r.Delivers m (.error error) r' := by
  refine ⟨?_, ?_⟩
  · rintro ⟨hfailure, m', hfeed, hposition⟩
    rw [Delivers, rest, hfeed, hfailure]
    exact ⟨rfl, if_pos hposition⟩
  · rintro (violation | error) h
    · rcases h with ⟨m', hfeed⟩ | ⟨rfl, hfailure, m', hfeed, hposition⟩
      · rw [Delivers, rest, hfeed]
        exact ⟨rfl, rfl⟩
      · rw [Delivers, rest, hfeed, hfailure]
        exact ⟨rfl, if_neg hposition⟩
    · obtain ⟨hfailure, m', hfeed⟩ := h
      rw [Delivers, rest, hfeed, hfailure]
      exact ⟨rfl, rfl⟩

/-- An item that says nothing is passed over. -/
theorem Delivers.of_silent {r r' r'' : FrameReader ε} {m m' : FrameMachine} {used : List UInt8}
    {events : List Event} (hfailure : r'.recv.failure = r.recv.failure)
    (hused : r.unread = used ++ r'.unread) (hfeed : feedAll feed m used = ⟨events, m', none⟩)
    (hevents : bodyOf events = []) {result : Except (ReadError ε) (Option (List UInt8))}
    (h : r'.Delivers m' result r'') : r.Delivers m result r'' := by
  have hrest := rest_of_used hused hfeed
  have hbody : bodyOf (r.rest m).out = bodyOf (r'.rest m').out := by
    rw [hrest, bodyOf_append, hevents, List.nil_append]
  have hending : bodyEnding r.recv.failure (r.rest m) =
      bodyEnding r'.recv.failure (r'.rest m') := by
    rw [hrest, hfailure]
    rfl
  rcases result with error | _ | data
  · rw [Delivers, hbody, hending]
    exact h
  · rw [Delivers, hbody, hending]
    exact h
  · obtain ⟨hne, hfailure', used', events', m'', hat, hused', hfeed', hdata⟩ := h
    refine ⟨hne, hfailure'.trans hfailure, used ++ used', events ++ events', m'', hat, ?_, ?_, ?_⟩
    · rw [List.append_assoc, ← hused', hused]
    · rw [feedAll_append, hfeed]
      simp only [Outcome.andThen, hfeed']
    · rw [bodyOf_append, hevents, hdata, List.nil_append]

/-- On a tunnel a call always finds room. -/
theorem takes_of_tunnelled {r : FrameReader ε} {m : FrameMachine} (h : r.At m)
    (ht : Tunnelled m) (others : Others) :
    r.Takes m (r.nextAmong others).1 (r.nextAmong others).2.1 := by
  rcases nextAmong_spec h others with htakes | ⟨⟨htunnel, -⟩, -⟩
  · exact htakes
  · exact absurd ht.stream htunnel

/-- **What a call of `recv_data` delivers**, whatever the other streams hold. -/
theorem recvData_spec {r : FrameReader ε} {m : FrameMachine} (h : r.At m) (ht : Tunnelled m)
    (others : Others) : r.Delivers m (r.recvData others).1 (r.recvData others).2.1 := by
  fun_induction recvData r others generalizing m with
  | case1 r others error r' others' hcall =>
      have htakes := takes_of_tunnelled h ht others
      rw [hcall] at htakes
      exact delivers_end.2 error htakes
  | case2 r others r' others' hcall =>
      have htakes := takes_of_tunnelled h ht others
      rw [hcall] at htakes
      exact delivers_end.1 htakes
  | case3 r others kind r' others' hcall ih =>
      have htakes := takes_of_tunnelled h ht others
      rw [hcall] at htakes
      obtain ⟨hfailure, used, events, m', hat, hused, hfeed, hrenders, -⟩ := htakes
      obtain rfl : events = [.skipped kind] := hrenders
      have ht' := (ht.run used).1
      rw [hfeed] at ht'
      exact (ih hat ht').of_silent hfailure hused hfeed rfl
  | case4 r others r' others' hcall ih =>
      have htakes := takes_of_tunnelled h ht others
      rw [hcall] at htakes
      obtain ⟨hfailure, used, events, m', hat, hused, hfeed, hrenders, -⟩ := htakes
      obtain rfl : events = [.emptyData] := hrenders
      have ht' := (ht.run used).1
      rw [hfeed] at ht'
      exact (ih hat ht').of_silent hfailure hused hfeed rfl
  | case5 r others byte bytes r' others' hcall =>
      have htakes := takes_of_tunnelled h ht others
      rw [hcall] at htakes
      obtain ⟨hfailure, used, events, m', hat, hused, hfeed, ⟨last, rfl⟩, -⟩ := htakes
      exact ⟨by simp, hfailure, used, _, m', hat, hused, hfeed,
        Item.flatMap_byteOf_dataEvents (byte :: bytes) last⟩
  | case6 r others frame r' others' hcall =>
      have htakes := takes_of_tunnelled h ht others
      rw [hcall] at htakes
      obtain ⟨-, used, events, m', -, -, hfeed, hrenders, -⟩ := htakes
      obtain rfl : events = [.frame frame] := hrenders
      have hnone := (ht.run used).2 frame
      rw [hfeed] at hnone
      exact absurd (List.mem_singleton_self _) hnone

/-- **What a tunnel delivers until it is told to stop**: the body bytes, in pieces that are not
empty, and how the body ends. -/
theorem recvAll_spec {r : FrameReader ε} {m : FrameMachine} (h : r.At m) (ht : Tunnelled m)
    (others : Others) :
    (r.recvAll others).1.flatten = bodyOf (r.rest m).out ∧
      (∀ chunk ∈ (r.recvAll others).1, chunk ≠ []) ∧
      (r.recvAll others).2 = bodyEnding r.recv.failure (r.rest m) := by
  fun_induction recvAll r others generalizing m with
  | case1 r others data r' others' hcall ih =>
      have hspec := recvData_spec h ht others
      rw [hcall] at hspec
      obtain ⟨hne, hfailure, used, events, m', hat, hused, hfeed, hdata⟩ := hspec
      have ht' := (ht.run used).1
      rw [hfeed] at ht'
      obtain ⟨hchunks, hpieces, hending⟩ := ih hat ht'
      have hrest := rest_of_used hused hfeed
      refine ⟨?_, ?_, ?_⟩
      · rw [List.flatten_cons, hchunks, hrest, bodyOf_append, hdata]
      · intro chunk hmem
        rcases List.mem_cons.mp hmem with rfl | hmem
        · exact hne
        · exact hpieces chunk hmem
      · rw [hending, hrest, hfailure]
        rfl
  | case2 r others r' others' hcall =>
      have hspec := recvData_spec h ht others
      rw [hcall] at hspec
      exact ⟨hspec.1.symm, by simp, hspec.2.symm⟩
  | case3 r others error r' others' hcall =>
      have hspec := recvData_spec h ht others
      rw [hcall] at hspec
      exact ⟨hspec.1.symm, by simp, hspec.2.symm⟩

/-! ### A body that was written -/

/-- The machine behind a completed CONNECT. -/
def completed (m : FrameMachine) : FrameMachine :=
  { m with stream := .tunnel }

/-- **Splitting a stream** between two frames narrows its rules and consumes nothing. -/
theorem at_split {r : FrameReader ε} {m : FrameMachine} (h : r.At m)
    (hm : m.position = .header []) : r.split.At (completed m) := by
  obtain ⟨⟨hsound, hsettle⟩, hfinished⟩ := h
  have hrep : FrameDecoder.Represents (r.decoder, ⟨r.decoder.charged⟩) m := ⟨hsound, hsettle⟩
  have hboundary := hrep.atFrameBoundary_iff.mpr hm
  simp only [FrameDecoder.atFrameBoundary, Bool.and_eq_true, decide_eq_true_eq] at hboundary
  have hmachine : r.decoder.machine = m := by
    rw [FrameDecoder.settle_header hboundary.1] at hsettle
    exact congrArg Outcome.state hsettle
  refine ⟨⟨⟨hsound.header_short, hsound.header_nil, hsound.payload_nil, hsound.charged_zero, rfl⟩,
    ?_⟩, hfinished⟩
  have hsplit : r.split.decoder.state = .header := hboundary.1
  rw [FrameDecoder.settle_header hsplit, ← hmachine]
  rfl

/-- The payloads of the DATA frames among written ones. -/
def payloads (frames : List WireFrame) : List UInt8 :=
  frames.flatMap fun f => if f.kind = FrameType.data then f.payload else []

/-- The payloads of two runs of frames join. -/
theorem payloads_append (frames frames' : List WireFrame) :
    payloads (frames ++ frames') = payloads frames ++ payloads frames' :=
  List.flatMap_append

/-- What may be written on a tunnel: DATA, and frames of unknown types. -/
def TunnelFrames (frames : List WireFrame) : Prop :=
  ∀ f ∈ frames, f.kind = FrameType.data ∨ isUnknown f.kind = true

/-- What `Writer::send_data` writes: the header of a DATA frame, and the data. -/
def dataFrame (data : List UInt8) : List UInt8 :=
  (WireFrame.encode ⟨FrameType.data, data⟩).getD []

/-- All but data whose length is no varint can be written. -/
theorem encode_dataFrame {data : List UInt8} (h : data.length ≤ varintMax) :
    WireFrame.encode ⟨FrameType.data, data⟩ = some (dataFrame data) := by
  obtain ⟨kind, hkind⟩ : ∃ kind, putVarint FrameType.data = some kind := ⟨_, rfl⟩
  obtain ⟨length, hlength⟩ :=
    Option.isSome_iff_exists.mp ((putVarint_isSome_iff data.length).mpr h)
  simp [dataFrame, WireFrame.encode, Frame.putHeader, hkind, hlength]

/-- A DATA frame takes at least a byte. -/
theorem dataFrame_ne_nil {data : List UInt8} (h : data.length ≤ varintMax) :
    dataFrame data ≠ [] := by
  obtain ⟨header, hheader, heq⟩ := Option.map_eq_some_iff.mp (encode_dataFrame h)
  intro hnil
  rw [hnil, List.append_eq_nil_iff] at heq
  have hpeek := (Frame.peekHeader_putHeader hheader).1
  rw [heq.1] at hpeek
  cases hpeek

/-- **One more DATA frame** on a tunnel. -/
theorem frames_concat {frames : List WireFrame} {wire data : List UInt8}
    (hframes : TunnelFrames frames) (henc : encodeAll WireFrame.encode frames = some wire)
    (h : data.length ≤ varintMax) :
    TunnelFrames (frames ++ [⟨FrameType.data, data⟩]) ∧
      encodeAll WireFrame.encode (frames ++ [⟨FrameType.data, data⟩]) =
        some (wire ++ dataFrame data) ∧
      payloads (frames ++ [⟨FrameType.data, data⟩]) = payloads frames ++ data := by
  refine ⟨fun f hf => ?_, encodeAll_concat henc (encode_dataFrame h), ?_⟩
  · rcases List.mem_append.mp hf with hf | hf
    · exact hframes f hf
    · rw [List.mem_singleton.mp hf]
      exact Or.inl rfl
  · rw [payloads_append]
    simp [payloads]

/-- One frame of a tunnel. -/
theorem feedAll_tunnelFrame {m : FrameMachine} (hm : m.position = .header [])
    (hstream : m.stream = .tunnel) {f : WireFrame}
    (hf : f.kind = FrameType.data ∨ isUnknown f.kind = true) {bytes : List UInt8}
    (henc : f.encode = some bytes) :
    ∃ events m', feedAll feed m bytes = ⟨events, m', none⟩ ∧ m'.position = .header [] ∧
      m'.stream = .tunnel ∧
      bodyOf events = if f.kind = FrameType.data then f.payload else [] := by
  rcases hf with hdata | hunknown
  · obtain ⟨kind, payload⟩ := f
    obtain rfl : kind = FrameType.data := hdata
    obtain ⟨header, hheader, rfl⟩ := Option.map_eq_some_iff.mp henc
    have hadm : WireFrame.Admissible m.stream ⟨FrameType.data, payload⟩ := .data payload
    refine ⟨if payload = [] then [.emptyData] else dataEvents payload true,
      m.atBoundary, ?_, rfl, hstream, ?_⟩
    · rw [FrameMachine.feedAll_putHeader hm hheader, FrameMachine.announce, hadm.begin]
      exact FrameMachine.enter_data m payload
    · rw [if_pos rfl]
      split_ifs with hnil
      · exact hnil.symm
      · exact Item.flatMap_byteOf_dataEvents payload true
  · have hne : f.kind ≠ FrameType.data := by
      simp only [isUnknown, Bool.and_eq_true, decide_eq_true_eq] at hunknown
      exact hunknown.1.1
    have hskip : m.stream = .request → m.skipped < maxSkippedFrames := by
      rw [hstream]
      rintro ⟨⟩
    refine ⟨_, _, FrameMachine.feedAll_unknown hm hunknown hskip henc, rfl, hstream, ?_⟩
    rw [if_neg hne]
    rfl

/-- **The frames of a tunnel** say the payloads of its DATA frames. -/
theorem feedAll_tunnelFrames {m : FrameMachine} (hm : m.position = .header [])
    (hstream : m.stream = .tunnel) {frames : List WireFrame} (hframes : TunnelFrames frames)
    {wire : List UInt8} (henc : encodeAll WireFrame.encode frames = some wire) :
    ∃ events m', feedAll feed m wire = ⟨events, m', none⟩ ∧ m'.position = .header [] ∧
      m'.stream = .tunnel ∧ bodyOf events = payloads frames := by
  induction frames generalizing m wire with
  | nil =>
      cases henc
      exact ⟨[], m, rfl, hm, hstream, rfl⟩
  | cons f frames ih =>
      obtain ⟨bytes, more, hbytes, hmore, rfl⟩ := encodeAll_cons_eq_some.mp henc
      obtain ⟨events, m', hfeed, hposition, hstream', hbody⟩ :=
        feedAll_tunnelFrame hm hstream (hframes f List.mem_cons_self) hbytes
      obtain ⟨events', m'', hfeed', hposition', hstream'', hbody'⟩ :=
        ih hposition hstream' (fun f hf => hframes f (List.mem_cons_of_mem _ hf)) hmore
      refine ⟨events ++ events', m'', ?_, hposition', hstream'', ?_⟩
      · rw [feedAll_append, hfeed]
        simp only [Outcome.andThen, hfeed']
      · rw [bodyOf_append, hbody, hbody']
        rfl

/-- The frames of a tunnel are ones a reader is ready for. -/
theorem ready_of_tunnelFrames {m : FrameMachine} (hm : m.position = .header [])
    (hstream : m.stream = .tunnel) {frames : List WireFrame} (hframes : TunnelFrames frames) :
    m.Ready frames := by
  refine ⟨hm, fun f hf => ?_, fun hrequest => ?_⟩
  · rcases hframes f hf with hdata | hunknown
    · obtain ⟨kind, payload⟩ := f
      obtain rfl : kind = FrameType.data := hdata
      exact .data payload
    · exact .unknown hunknown f.payload
  · rw [hstream] at hrequest
    cases hrequest

/-- Every type that is neither DATA nor unknown is refused on a tunnel. -/
theorem begin_tunnel {kind : ℕ} (hdata : kind ≠ FrameType.data) (hknown : isUnknown kind = false)
    (length : ℕ) : ∃ detail, Frame.begin .tunnel kind length =
      .error (Violation.connection Code.h3FrameUnexpected detail) := by
  rcases Frame.begin_cases .tunnel kind length with
    ⟨-, h⟩ | ⟨hres, hmis, ⟨rfl, -⟩ | ⟨-, hnone, -⟩ | ⟨buffered, rfl, -⟩⟩
  · exact h
  · exact absurd rfl hdata
  · rw [isUnknown, hres, hnone, decide_eq_true hdata] at hknown
    cases hknown
  · have hsome := FrameDecoder.misplaced_tunnel buffered
    rw [hmis] at hsome
    cases hsome

/-- A reader between two frames of a tunnel. -/
structure BetweenFrames (r : FrameReader ε) (m : FrameMachine) : Prop where
  at_machine : r.At m
  position : m.position = .header []
  stream : m.stream = .tunnel

/-- A reader between two frames of a tunnel is in a tunnel. -/
theorem BetweenFrames.tunnelled {r : FrameReader ε} {m : FrameMachine} (h : r.BetweenFrames m) :
    Tunnelled m :=
  ⟨h.stream, by simp [h.position]⟩

/-- **Whole frames** are delivered whole. -/
theorem BetweenFrames.recvAll_whole {r : FrameReader ε} {m : FrameMachine} (h : r.BetweenFrames m)
    {frames : List WireFrame} (hframes : TunnelFrames frames)
    (henc : encodeAll WireFrame.encode frames = some r.unread) (others : Others) :
    (r.recvAll others).1.flatten = payloads frames ∧
      (r.recvAll others).2 = r.recv.failure.map .transport := by
  obtain ⟨hflat, -, hending⟩ := recvAll_spec h.at_machine h.tunnelled others
  obtain ⟨events, m', hfeed, hposition, -, hbody⟩ :=
    feedAll_tunnelFrames h.position h.stream hframes henc
  rw [rest, hfeed] at hflat hending
  refine ⟨hflat.trans hbody, ?_⟩
  rw [hending]
  cases r.recv.failure with
  | none => exact if_pos hposition
  | some error => rfl

/-- **A front of frames** is delivered as a front of their payloads, and ends cleanly between two of
them only. -/
theorem BetweenFrames.recvAll_front {r : FrameReader ε} {m : FrameMachine} (h : r.BetweenFrames m)
    {frames : List WireFrame} (hframes : TunnelFrames frames) {back : List UInt8}
    (henc : encodeAll WireFrame.encode frames = some (r.unread ++ back)) (others : Others) :
    (r.recvAll others).1.flatten <+: payloads frames ∧
      (r.recv.failure = none →
        (Between WireFrame.encode frames r.unread →
          (r.recvAll others).2 = none) ∧
        (¬Between WireFrame.encode frames r.unread →
          (r.recvAll others).2 = some (.violation endedMidFrame))) := by
  obtain ⟨hflat, -, hending⟩ := recvAll_spec h.at_machine h.tunnelled others
  obtain ⟨herror, hiff⟩ := (ready_of_tunnelFrames h.position h.stream hframes).feedAll_front henc
  obtain ⟨events, m', hwhole, -, -, hbody⟩ :=
    feedAll_tunnelFrames h.position h.stream hframes henc
  rw [rest] at hflat hending
  generalize hfront : feedAll feed m r.unread = o at hflat hending herror hiff
  obtain ⟨front, m'', error⟩ := o
  obtain rfl : error = none := herror
  refine ⟨?_, fun hnone => ?_⟩
  · rw [feedAll_append, hfront] at hwhole
    simp only [Outcome.andThen] at hwhole
    have hevents : front ++ (feedAll feed m'' back).out = events := congrArg Outcome.out hwhole
    rw [hflat, ← hbody, ← hevents, bodyOf_append]
    exact List.prefix_append _ _
  · rw [hending, hnone]
    exact ⟨fun hbetween => if_pos (hiff.mpr hbetween),
      fun hinside => if_neg fun hm'' => hinside (hiff.mp hm'')⟩

/-- **A frame of another type** behind whole frames ends the tunnel, and they are delivered. -/
theorem BetweenFrames.recvAll_refused {r : FrameReader ε} {m : FrameMachine}
    (h : r.BetweenFrames m) {frames : List WireFrame} (hframes : TunnelFrames frames)
    {wire : List UInt8} (henc : encodeAll WireFrame.encode frames = some wire) {kind length : ℕ}
    {header more : List UInt8} (hdata : kind ≠ FrameType.data) (hknown : isUnknown kind = false)
    (hheader : Frame.putHeader kind length = some header)
    (hunread : r.unread = wire ++ (header ++ more)) (others : Others) :
    (r.recvAll others).1.flatten = payloads frames ∧ ∃ detail,
      (r.recvAll others).2 =
        some (.violation (Violation.connection Code.h3FrameUnexpected detail)) := by
  obtain ⟨hflat, -, hending⟩ := recvAll_spec h.at_machine h.tunnelled others
  obtain ⟨events, m', hfeed, hposition, hstream, hbody⟩ :=
    feedAll_tunnelFrames h.position h.stream hframes henc
  obtain ⟨detail, hbegin⟩ := begin_tunnel hdata hknown length
  have hrest : r.rest m = ⟨events, m'.atBoundary, some (Violation.connection
      Code.h3FrameUnexpected detail)⟩ := by
    rw [rest, hunread, feedAll_append, hfeed]
    simp only [Outcome.andThen, FrameMachine.feedAll_refused hposition hheader
      (hstream.symm ▸ hbegin) more, List.append_nil]
  rw [hrest] at hflat hending
  exact ⟨hflat.trans hbody, detail, hending⟩

/-- **A tunnel over the wire.** Let a stream begin with a request that is returned, and be split
behind it. What the tunnel then delivers is decided by the bytes behind the HEADERS frame alone,
whatever the other streams of the connection hold and wherever the stream was cut.

Behind whole frames, DATA and unknown ones, the payloads of the DATA frames are delivered, in pieces
that are not empty, and then the end, or the error the transport gave. Where the stream stops inside
such a sequence what is delivered is a front of those payloads, and a clean end is reported only
when it stops between two frames. A frame of any other type ends the tunnel with
`H3_FRAME_UNEXPECTED` when its header has been read, and all that stood before it was delivered. -/
theorem tunnel_over_the_wire {others : Others} (hroom : others.Room) {recv : RecvStream ε}
    {greased : List WireFrame} {block front body : List UInt8}
    (hgreased : ∀ f ∈ greased, isUnknown f.kind = true) (hcount : greased.length ≤ maxSkippedFrames)
    (hle : block.length ≤ maxBufferedFrame)
    (henc : encodeAll WireFrame.encode (greased ++ [⟨FrameType.headers, block⟩]) = some front)
    (hchunks : recv.chunks.flatten = front ++ body) {request : Request} {reader : FrameReader ε}
    {left : Others}
    (hread : (withKind recv .request).readRequest others = (.ok request, reader, left))
    {frames : List WireFrame} (hframes : TunnelFrames frames) (others' : Others) :
    (encodeAll WireFrame.encode frames = some body →
      (reader.split.recvAll others').1.flatten = payloads frames ∧
      (∀ chunk ∈ (reader.split.recvAll others').1, chunk ≠ []) ∧
      (reader.split.recvAll others').2 = recv.failure.map .transport) ∧
    (∀ back, encodeAll WireFrame.encode frames = some (body ++ back) →
      (reader.split.recvAll others').1.flatten <+: payloads frames ∧
      (recv.failure = none →
        (Between WireFrame.encode frames body →
          (reader.split.recvAll others').2 = none) ∧
        (¬Between WireFrame.encode frames body →
          (reader.split.recvAll others').2 = some (.violation endedMidFrame)))) ∧
    ∀ (wire : List UInt8) (kind length : ℕ) (header more : List UInt8),
      encodeAll WireFrame.encode frames = some wire → kind ≠ FrameType.data →
      isUnknown kind = false → Frame.putHeader kind length = some header →
      body = wire ++ (header ++ more) →
      (reader.split.recvAll others').1.flatten = payloads frames ∧
      ∃ detail, (reader.split.recvAll others').2 =
        some (.violation (Violation.connection Code.h3FrameUnexpected detail)) := by
  obtain ⟨m, hfeed, hposition, -⟩ := feedAll_opening (m := FrameMachine.new .request) rfl rfl
    hgreased (by simpa [FrameMachine.new] using hcount) hle henc
  obtain ⟨-, hleft⟩ :=
    readRequest_opening (at_withKind recv .request) hroom hchunks hfeed hposition
  rw [hread] at hleft
  obtain ⟨hfailure, hat, hunread⟩ := hleft request rfl
  have hbetween : reader.split.BetweenFrames (completed m) :=
    ⟨at_split hat hposition, hposition, rfl⟩
  have hunread' : reader.split.unread = body := hunread
  have hfailure' : reader.split.recv.failure = recv.failure := hfailure
  rw [← hunread', ← hfailure']
  refine ⟨?_, ?_, ?_⟩
  · intro hwhole
    obtain ⟨hflat, hending⟩ := hbetween.recvAll_whole hframes hwhole others'
    exact ⟨hflat, (recvAll_spec hbetween.at_machine hbetween.tunnelled others').2.1, hending⟩
  · intro back hcut
    exact hbetween.recvAll_front hframes hcut others'
  · intro wire kind length header more hwire hdata hknown hheader heq
    exact hbetween.recvAll_refused hframes hwire hdata hknown hheader heq others'

/-- A reader that returned a request is, once it is split, between two frames of a tunnel. -/
theorem split_between {recv : RecvStream ε} {others : Others} {request : Request}
    {reader : FrameReader ε} {left : Others}
    (hread : (withKind recv .request).readRequest others = (.ok request, reader, left)) :
    ∃ m, reader.split.BetweenFrames m := by
  have hspec := readRequest_spec (at_withKind recv .request) others
  rw [hread] at hspec
  rcases hspec with ⟨-, hleft⟩ | ⟨-, violation, herror, -⟩
  · obtain ⟨-, -, m, -, -, hat, hposition, -⟩ := hleft request rfl
    exact ⟨completed m, at_split hat hposition, hposition, rfl⟩
  · cases herror

/-- A stream that begins with a CONNECT to `a:1`. -/
theorem readRequest_connect {recv : RecvStream ε} {body : List UInt8} (h : recv.chunks.flatten =
    [0x01, 0x08, 0x00, 0x00, 0xcf, 0x50, 0x03, 0x61, 0x3a, 0x31] ++ body) :
    ∃ request reader left, (withKind recv .request).readRequest (fun _ => 0) =
      (.ok request, reader, left) ∧ reader.unread = body ∧
        reader.recv.failure = recv.failure := by
  have hroom : Others.Room fun _ => 0 :=
    fun _ => (by decide : 0 + maxBufferedFrame ≤ headersBufferBudget)
  have hgreased : ∀ f ∈ ([] : List WireFrame), isUnknown f.kind = true := by simp
  have hbound : [(0x00 : UInt8), 0x00, 0xcf, 0x50, 0x03, 0x61, 0x3a, 0x31].length ≤
      maxBufferedFrame := by decide
  have hblock : [0x00, 0x00, 0xcf, 0x50, 0x03, 0x61, 0x3a, 0x31] = Qpack.encode
      [(⟨ascii ":method", by decide⟩, ⟨ascii "CONNECT", by decide⟩),
        (⟨ascii ":authority", by decide⟩, ⟨ascii "a:1", by decide⟩)] := by decide
  obtain ⟨m, hfeed, hposition, -⟩ := feedAll_opening (m := FrameMachine.new .request) rfl rfl
    hgreased (by decide) hbound rfl
  obtain ⟨hresult, hleft⟩ :=
    readRequest_opening (at_withKind recv .request) hroom h hfeed hposition
  rw [decodeRequest, hblock, Qpack.decode_encode_fields, if_pos (by decide)] at hresult
  obtain ⟨hfailure, -, hunread⟩ := hleft _ hresult
  exact ⟨_, _, _, Prod.ext hresult rfl, hunread, hfailure⟩

/-- A CONNECT to `a:1` with two bytes behind it, cut inside the header of their DATA frame, while
another stream holds nearly all of the budget. -/
theorem tunnel_over_the_wire_cut :
    ∃ request reader left, (withKind (ε := Empty) ⟨[[0x01, 0x08, 0x00, 0x00, 0xcf, 0x50, 0x03, 0x61,
        0x3a, 0x31, 0x00], [0x02, 0x68], [0x69]], none⟩ .request).readRequest (fun _ => 0) =
        (.ok request, reader, left) ∧
      (reader.split.recvAll fun _ => headersBufferBudget).1.flatten = [0x68, 0x69] ∧
      (reader.split.recvAll fun _ => headersBufferBudget).2 = none := by
  have hroom : Others.Room fun _ => 0 :=
    fun _ => (by decide : 0 + maxBufferedFrame ≤ headersBufferBudget)
  have hchunks : (RecvStream.mk (ε := Empty) [[0x01, 0x08, 0x00, 0x00, 0xcf, 0x50, 0x03, 0x61, 0x3a,
      0x31, 0x00], [0x02, 0x68], [0x69]] none).chunks.flatten =
      [0x01, 0x08, 0x00, 0x00, 0xcf, 0x50, 0x03, 0x61, 0x3a, 0x31] ++ [0x00, 0x02, 0x68, 0x69] :=
    rfl
  have hgreased : ∀ f ∈ ([] : List WireFrame), isUnknown f.kind = true := by simp
  have hbound : [(0x00 : UInt8), 0x00, 0xcf, 0x50, 0x03, 0x61, 0x3a, 0x31].length ≤
      maxBufferedFrame := by decide
  have hframes : TunnelFrames [⟨FrameType.data, [0x68, 0x69]⟩] := by simp [TunnelFrames]
  obtain ⟨request, reader, left, hread, -, -⟩ := readRequest_connect hchunks
  have h := (tunnel_over_the_wire hroom hgreased (by decide) hbound rfl hchunks hread hframes
    fun _ => headersBufferBudget).1 rfl
  exact ⟨request, reader, left, hread, h.1, h.2.2⟩

end FrameReader

end Volto
