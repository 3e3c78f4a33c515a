import Volto.H3.FrameRoundTrip
import Volto.H3.SharedReader
import Volto.H3.WellFormed

/-!
# Reading a Request

`read_request` of `h3/stream.rs`: frames of an unknown type are passed over, the first other frame
has to be HEADERS, and its block is decoded and made a request.

What it returns is told by the byte machine's run over the stream (`requestIn`), so neither the cuts
of the stream nor the other streams of the connection matter, as long as these leave room in the
budget. A request that is returned has been read to the last byte of its HEADERS frame and no
further, which is where the tunnel begins.

## Main results

* `readRequest_spec`: what `read_request` returns, and what it leaves unread.
* `request_over_the_wire`: a request that was written is read, however its stream is cut.
-/

namespace Volto

open Framing Incremental

/-- A request stream that ends too early. -/
def endedBeforeHeaders : Violation :=
  Violation.stream Code.h3RequestIncomplete "the request stream ended before its HEADERS frame"

/-- A request stream that begins with another known frame. -/
def beginsWithoutHeaders : Violation :=
  Violation.connection Code.h3FrameUnexpected "a request stream that does not begin with HEADERS"

/-- Decodes a HEADERS block and builds the request. -/
def decodeRequest (block : List UInt8) : Except Violation Request := do
  let lines ← Qpack.decode block maxFieldSectionSize
  buildRequest lines

namespace FrameReader

open FrameMachine (feed)

variable {ε : Type}

/-- Reads the first frame of a request stream and turns it into a request. -/
def readRequest (r : FrameReader ε) (others : Others) :
    Except (ReadError ε) Request × FrameReader ε × Others :=
  match _h : r.nextAmong others with
  | (.error error, r, others) => (.error error, r, others)
  | (.ok none, r, others) => (.error (.violation endedBeforeHeaders), r, others)
  | (.ok (some (.frame (.headers block))), r, others) =>
      ((decodeRequest block).mapError .violation, r, others)
  | (.ok (some (.skipped _)), r', others') => r'.readRequest others'
  | (.ok (some _), r, others) => (.error (.violation beginsWithoutHeaders), r, others)
termination_by (r.recv.chunks.length, r.decoder.weight)
decreasing_by exact Prod.lex_def.mpr (behind_nextAmong _h)

/-! ### What the bytes say -/

/-- How a stream of which everything has been read ends. -/
def endingOf (failure : Option ε) (o : FrameMachine.Step) : ReadError ε :=
  match o.error, failure with
  | some violation, _ => .violation violation
  | none, some error => .transport error
  | none, none =>
      if o.state.position = .header [] then .violation endedBeforeHeaders
      else .violation endedMidFrame

/-- The request in what the byte machine reports of a stream with this ending, or what is wrong
with it. -/
def requestIn (ending : ReadError ε) : List Event → Except (ReadError ε) Request
  | [] => .error ending
  | .skipped _ :: events => requestIn ending events
  | .frame (.headers block) :: _ => (decodeRequest block).mapError .violation
  | _ :: _ => .error (.violation beginsWithoutHeaders)

/-- The run over what a reader has not read yet. -/
def rest (r : FrameReader ε) (m : FrameMachine) : FrameMachine.Step :=
  feedAll feed m r.unread

/-- The request in what is left of a stream. -/
def requestLeft (r : FrameReader ε) (m : FrameMachine) : Except (ReadError ε) Request :=
  requestIn (endingOf r.recv.failure (r.rest m)) (r.rest m).out

/-- Unknown frames, and then a HEADERS frame. -/
def opening (kinds : List ℕ) (block : List UInt8) : List Event :=
  kinds.map .skipped ++ [.frame (.headers block)]

/-- What a call that returned a request has left: the reader behind a HEADERS frame. -/
def LeftAt (r : FrameReader ε) (m : FrameMachine) (request : Request) (r' : FrameReader ε) : Prop :=
  r'.recv.failure = r.recv.failure ∧ ∃ used m' kinds block, r'.At m' ∧ m'.position = .header [] ∧
    r.unread = used ++ r'.unread ∧ feedAll feed m used = ⟨opening kinds block, m', none⟩ ∧
    decodeRequest block = .ok request

/-- What `read_request` is to establish. -/
def ReadsRequest (r : FrameReader ε) (m : FrameMachine) (others : Others)
    (result : Except (ReadError ε) Request) (r' : FrameReader ε) : Prop :=
  (result = r.requestLeft m ∧ ∀ request, result = .ok request → r.LeftAt m request r') ∨
    Crowded m others ∧ ∃ violation, result = .error (.violation violation) ∧
        violation.isFieldSectionTooLarge = true ∧ violation.isConnectionError = false

/-- The run goes on behind what a call consumed. -/
theorem rest_of_used {r r' : FrameReader ε} {m m' : FrameMachine} {used : List UInt8}
    {events : List Event} (hused : r.unread = used ++ r'.unread)
    (hfeed : feedAll feed m used = ⟨events, m', none⟩) :
    r.rest m = ⟨events ++ (r'.rest m').out, (r'.rest m').state, (r'.rest m').error⟩ := by
  rw [rest, hused, feedAll_append, hfeed]
  rfl

/-- A call that returns no item has come to the end of what can be read. -/
theorem requestLeft_of_error {r r' : FrameReader ε} {m : FrameMachine} {error : ReadError ε}
    (h : r.Takes m (.error error) r') : r.requestLeft m = .error error := by
  cases error with
  | violation violation =>
      rcases h with ⟨m', hfeed⟩ | ⟨rfl, hfailure, m', hfeed, hposition⟩
      · rw [requestLeft, rest, hfeed]
        rfl
      · rw [requestLeft, rest, hfeed, hfailure]
        exact congrArg Except.error (if_neg hposition)
  | transport error =>
      obtain ⟨hfailure, m', hfeed⟩ := h
      rw [requestLeft, rest, hfeed, hfailure]
      rfl

/-- A stream that is over without a HEADERS frame. -/
theorem requestLeft_of_none {r r' : FrameReader ε} {m : FrameMachine}
    (h : r.Takes m (.ok none) r') :
    r.requestLeft m = .error (.violation endedBeforeHeaders) := by
  obtain ⟨hfailure, m', hfeed, hposition⟩ := h
  rw [requestLeft, rest, hfeed, hfailure]
  exact congrArg Except.error (if_pos hposition)

/-- A call that returns an item of one event has consumed the bytes of that event. -/
theorem takes_one {r r' : FrameReader ε} {m : FrameMachine} {item : Item}
    (h : r.Takes m (.ok (some item)) r') (event : Event)
    (hrenders : ∀ events, item.Renders events → events = [event])
    (hitem : ¬FrameDecoder.IsPiece item) :
    r'.recv.failure = r.recv.failure ∧ ∃ used m', r'.At m' ∧ m'.position = .header [] ∧
      r.unread = used ++ r'.unread ∧ feedAll feed m used = ⟨[event], m', none⟩ := by
  obtain ⟨hfailure, used, events, m', hat, hused, hfeed, hrender, hposition⟩ := h
  obtain rfl := hrenders events hrender
  exact ⟨hfailure, used, m', hat, hposition hitem, hused, hfeed⟩

/-- An item that is neither a HEADERS frame nor a skipped one begins no request. -/
theorem requestIn_of_other (ending : ReadError ε) {item : Item}
    (hheaders : ∀ block, item ≠ .frame (.headers block)) (hskipped : ∀ kind, item ≠ .skipped kind)
    {events : List Event} (hrenders : item.Renders events) (more : List Event) :
    requestIn ending (events ++ more) = .error (.violation beginsWithoutHeaders) := by
  rcases item with (_ | ⟨byte, bytes⟩) | f | kind
  · obtain rfl : events = [.emptyData] := hrenders
    rfl
  · obtain ⟨last, rfl⟩ := hrenders
    cases bytes <;> rfl
  · obtain rfl : events = [.frame f] := hrenders
    cases f with
    | headers block => exact absurd rfl (hheaders block)
    | settings _ => rfl
    | goaway _ => rfl
    | cancelPush _ => rfl
    | maxPushId _ => rfl
    | pushPromise => rfl
  · exact absurd rfl (hskipped kind)

/-- **What `read_request` returns is told by the bytes**, unless the budget is found full, and a
request that it returns has been read up to the end of its HEADERS frame. -/
theorem readRequest_spec {r : FrameReader ε} {m : FrameMachine} (h : r.At m) (others : Others) :
    r.ReadsRequest m others (r.readRequest others).1 (r.readRequest others).2.1 := by
  fun_induction readRequest r others generalizing m with
  | case1 r others error r' others' hcall =>
      have hspec := nextAmong_spec h others
      rw [hcall] at hspec
      rcases hspec with htakes | ⟨hfull, violation, heq, hv⟩
      · exact Or.inl ⟨(requestLeft_of_error htakes).symm, by simp⟩
      · cases heq
        exact Or.inr ⟨hfull, violation, rfl, hv⟩
  | case2 r others r' others' hcall =>
      have hspec := nextAmong_spec h others
      rw [hcall] at hspec
      rcases hspec with htakes | ⟨hfull, violation, heq, hv⟩
      · exact Or.inl ⟨(requestLeft_of_none htakes).symm, by simp⟩
      · cases heq
  | case3 r others block r' others' hcall =>
      have hspec := nextAmong_spec h others
      rw [hcall] at hspec
      rcases hspec with htakes | ⟨-, violation, heq, -⟩
      · obtain ⟨hfailure, used, m', hat, hposition, hused, hfeed⟩ :=
          takes_one htakes (.frame (.headers block)) (fun _ h => h)
            (by rintro ⟨_, _, ⟨⟩⟩)
        refine Or.inl ⟨?_, fun request hrequest => ⟨hfailure, used, m', [], block, hat, hposition,
          hused, hfeed, Fallible.mapError_eq_ok.mp hrequest⟩⟩
        rw [requestLeft, rest_of_used hused hfeed]
        rfl
      · cases heq
  | case4 r others kind r' others' hcall ih =>
      have hspec := nextAmong_spec h others
      have hshift := nextAmongLoop_others r.recv.failure r.finished r.recv.chunks r.decoder others
      rw [show nextAmongLoop r.recv.failure r.finished r.recv.chunks r.decoder others =
        (.ok (some (.skipped kind)), r', others') from hcall] at hshift
      obtain ⟨calls, rfl⟩ := hshift
      rw [hcall] at hspec
      rcases hspec with htakes | ⟨-, violation, heq, -⟩
      · obtain ⟨hfailure, used, m', hat, -, hused, hfeed⟩ :=
          takes_one htakes (.skipped kind) (fun _ h => h) (by rintro ⟨_, _, ⟨⟩⟩)
        rcases ih hat with ⟨hresult, hleft⟩ | ⟨⟨htunnel, call, hfull⟩, hrefused⟩
        · refine Or.inl ⟨?_, fun request hrequest => ?_⟩
          · rw [hresult, requestLeft, requestLeft, rest_of_used hused hfeed, hfailure]
            rfl
          · obtain ⟨hfailure', used', m'', kinds, block, hat', hposition, hused', hfeed',
              hdecode⟩ := hleft request hrequest
            refine ⟨hfailure'.trans hfailure, used ++ used', m'', kind :: kinds, block, hat',
              hposition, ?_, ?_, hdecode⟩
            · rw [List.append_assoc, ← hused', hused]
            · rw [feedAll_append, hfeed]
              simp only [Outcome.andThen, hfeed']
              rfl
        · have hstream := FrameMachine.feedAll_stream m used
          rw [hfeed] at hstream
          exact Or.inr ⟨⟨hstream ▸ htunnel, call + calls, hfull⟩, hrefused⟩
      · cases heq
  | case5 r others item r' others' hheaders hskipped hcall =>
      have hspec := nextAmong_spec h others
      rw [hcall] at hspec
      rcases hspec with htakes | ⟨-, violation, heq, -⟩
      · obtain ⟨hfailure, used, events, m', hat, hused, hfeed, hrenders, -⟩ := htakes
        refine Or.inl ⟨?_, by simp⟩
        rw [requestLeft, rest_of_used hused hfeed]
        exact (requestIn_of_other _ hheaders hskipped hrenders _).symm
      · cases heq

end FrameReader

/-! ### What is left unread -/

/-- A frame that is let in has a payload state. -/
theorem Frame.begin_ne_header {stream : StreamKind} {kind length : ℕ} :
    Frame.begin stream kind length ≠ .ok .header := by
  rcases Frame.begin_cases stream kind length with
    ⟨-, detail, h⟩ | ⟨-, -, ⟨-, h⟩ | ⟨-, -, h⟩ | ⟨buffered, -, ⟨-, detail, h⟩ | ⟨-, h⟩⟩⟩ <;>
    rw [h] <;> rintro ⟨⟩

namespace FrameMachine

/-- A buffered frame that is whole is reported, or refused. -/
theorem complete_not_silent (m m' : FrameMachine) (kind : BufferedKind) (payload : List UInt8) :
    m.complete kind payload ≠ Outcome.idle m' := by
  intro h
  rw [complete] at h
  cases hparse : Frame.parse kind payload <;> rw [hparse] at h <;> cases h

/-- So is a skipped one. -/
theorem finishSkip_not_silent (m m' : FrameMachine) (kind : ℕ) :
    m.finishSkip kind ≠ Outcome.idle m' := by
  intro h
  rw [finishSkip] at h
  split_ifs at h <;> cases h

/-- A payload that is entered in silence has a byte to come. -/
theorem position_of_enter {m m' : FrameMachine} {payload : List UInt8}
    {state : FrameDecoder.State} (hstate : state ≠ .header)
    (h : m.enter payload state = Outcome.idle m') : m'.position ≠ .header [] := by
  rcases state with _ | (_ | more) | ⟨kind, _ | more⟩ | ⟨kind, _ | more⟩
  · exact absurd rfl hstate
  · cases h
  · cases h
    simp
  · exact absurd h (complete_not_silent m m' kind payload)
  · cases h
    simp
  · exact absurd h (finishSkip_not_silent m m' kind)
  · cases h
    simp

/-- A byte that is read in silence leaves the machine inside a frame. -/
theorem position_of_silent {m m' : FrameMachine} {byte : UInt8}
    (h : m.feed byte = Outcome.idle m') : m'.position ≠ .header [] := by
  rw [feed] at h
  rcases hposition : m.position with
    bytes | (_ | more) | ⟨kind, payload, _ | more⟩ | ⟨kind, _ | more⟩
  · rw [hposition] at h
    simp only at h
    cases hpeek : Frame.peekHeader (bytes ++ [byte]) with
    | none =>
        rw [hpeek] at h
        cases h
        simp
    | some header =>
        obtain ⟨kind, length⟩ := header
        rw [hpeek] at h
        simp only [announce] at h
        cases hbegin : Frame.begin m.stream kind length with
        | error violation =>
            rw [hbegin] at h
            cases h
        | ok state =>
            rw [hbegin] at h
            refine position_of_enter ?_ h
            rintro rfl
            exact Frame.begin_ne_header hbegin
  · rw [hposition] at h
    cases h
  · rw [hposition] at h
    cases h
  · rw [hposition] at h
    exact absurd h (complete_not_silent m m' kind _)
  · rw [hposition] at h
    cases h
    simp
  · rw [hposition] at h
    exact absurd h (finishSkip_not_silent m m' kind)
  · rw [hposition] at h
    cases h
    simp

/-- Bytes that are read in silence and end between two frames are none. -/
theorem eq_nil_of_silent {m m' : FrameMachine} {bytes : List UInt8}
    (h : feedAll feed m bytes = Outcome.idle m') (hm' : m'.position = .header []) : bytes = [] := by
  by_contra hne
  obtain ⟨front, byte, rfl⟩ : ∃ front byte, bytes = front ++ [byte] :=
    ⟨bytes.dropLast, bytes.getLast hne, (List.dropLast_append_getLast hne).symm⟩
  rw [feedAll_append] at h
  generalize feedAll feed m front = o at h
  obtain ⟨out, m₁, error⟩ := o
  cases error with
  | some violation => cases h
  | none =>
      have hlast : feedAll feed m₁ [byte] = m₁.feed byte := Outcome.andThen_idle _
      simp only [Outcome.andThen, hlast] at h
      generalize hstep : m₁.feed byte = step at h
      obtain ⟨out', m₂, error'⟩ := step
      simp only [Outcome.idle, Outcome.mk.injEq, List.append_eq_nil_iff] at h
      obtain ⟨⟨-, rfl⟩, rfl, rfl⟩ := h
      exact position_of_silent hstep hm'

/-- **Two fronts of one stream** that are read as the same events, each up to the end of a frame,
are the same. -/
theorem front_unique {m m₁ m₂ : FrameMachine} {front₁ front₂ rest₁ rest₂ : List UInt8}
    {events : List Event} (heq : front₁ ++ rest₁ = front₂ ++ rest₂)
    (h₁ : feedAll feed m front₁ = ⟨events, m₁, none⟩) (hm₁ : m₁.position = .header [])
    (h₂ : feedAll feed m front₂ = ⟨events, m₂, none⟩) (hm₂ : m₂.position = .header []) :
    front₁ = front₂ ∧ rest₁ = rest₂ ∧ m₁ = m₂ := by
  have hsilent : ∀ {m₁ m₂ : FrameMachine} {front more : List UInt8},
      feedAll feed m front = ⟨events, m₁, none⟩ →
      feedAll feed m (front ++ more) = ⟨events, m₂, none⟩ → m₂.position = .header [] →
      more = [] := by
    intro m₁ m₂ front more hfront hwhole hm₂
    rw [feedAll_append, hfront] at hwhole
    simp only [Outcome.andThen] at hwhole
    generalize hmore : feedAll feed m₁ more = o at hwhole
    obtain ⟨out, m', error⟩ := o
    simp only [Outcome.mk.injEq, List.append_right_eq_self] at hwhole
    obtain ⟨rfl, rfl, rfl⟩ := hwhole
    exact eq_nil_of_silent hmore hm₂
  rcases List.append_eq_append_iff.mp heq with ⟨more, rfl, rfl⟩ | ⟨more, rfl, rfl⟩
  · obtain rfl := hsilent h₁ h₂ hm₂
    rw [List.append_nil, h₁] at h₂
    exact ⟨(List.append_nil _).symm, rfl, congrArg Outcome.state h₂⟩
  · obtain rfl := hsilent h₂ h₁ hm₁
    rw [List.append_nil, h₂] at h₁
    exact ⟨List.append_nil _, rfl, (congrArg Outcome.state h₁).symm⟩

/-! ### A request that was written -/

/-- An unknown frame between two others. -/
theorem feedAll_unknown {m : FrameMachine} (hm : m.position = .header []) {f : WireFrame}
    (hunknown : isUnknown f.kind = true)
    (hskip : m.stream = .request → m.skipped < maxSkippedFrames) {bytes : List UInt8}
    (henc : f.encode = some bytes) :
    feedAll feed m bytes =
      ⟨[.skipped f.kind], { m.atBoundary with skipped := m.skippedNext }, none⟩ := by
  obtain ⟨header, hheader, rfl⟩ := Option.map_eq_some_iff.mp henc
  have hentry : f.entry = .skipping f.kind f.payload.length := by
    simp only [isUnknown, Bool.and_eq_true, decide_eq_true_eq, Option.isNone_iff_eq_none]
      at hunknown
    simp only [WireFrame.entry, hunknown.1.1, hunknown.1.2, if_false]
  have hadm : WireFrame.Admissible m.stream f := .unknown hunknown f.payload
  rw [feedAll_putHeader hm hheader, announce, hadm.begin]
  exact (congrArg (fun entry => (m.enter [] entry).andThen fun m => feedAll feed m f.payload)
    hentry).trans ((enter_skipping m f.kind f.payload).trans (finishSkip_of_lt f.kind hskip))

/-- A HEADERS frame on a request stream. -/
theorem feedAll_headers {m : FrameMachine} (hm : m.position = .header [])
    (hstream : m.stream ≠ .tunnel) {block bytes : List UInt8}
    (hle : block.length ≤ maxBufferedFrame)
    (henc : WireFrame.encode ⟨FrameType.headers, block⟩ = some bytes) :
    feedAll feed m bytes = ⟨[.frame (.headers block)], m.atBoundary, none⟩ := by
  obtain ⟨header, hheader, rfl⟩ := Option.map_eq_some_iff.mp henc
  rw [feedAll_putHeader hm hheader, announce,
    (WireFrame.Admissible.headers hstream hle).begin]
  exact enter_buffering m .headers block

end FrameMachine

namespace FrameReader

open FrameMachine (feed)

/-- The opening of a request stream: unknown frames, no more than may be skipped, and HEADERS. -/
theorem feedAll_opening {m : FrameMachine} (hm : m.position = .header [])
    (hstream : m.stream = .request) {greased : List WireFrame}
    (hgreased : ∀ f ∈ greased, isUnknown f.kind = true)
    (hcount : m.skipped + greased.length ≤ maxSkippedFrames) {block front : List UInt8}
    (hle : block.length ≤ maxBufferedFrame)
    (henc : encodeAll WireFrame.encode (greased ++ [⟨FrameType.headers, block⟩]) = some front) :
    ∃ m', feedAll feed m front = ⟨opening (greased.map WireFrame.kind) block, m', none⟩ ∧
      m'.position = .header [] ∧ m'.stream = .request := by
  induction greased generalizing m front with
  | nil =>
      obtain ⟨header, rest, hheader, hrest, rfl⟩ := encodeAll_cons_eq_some.mp henc
      obtain rfl : [] = rest := Option.some.inj hrest
      rw [List.append_nil]
      exact ⟨m.atBoundary, FrameMachine.feedAll_headers hm (by simp [hstream]) hle hheader, rfl,
        hstream⟩
  | cons f greased ih =>
      obtain ⟨bytes, more, hbytes, hmore, rfl⟩ := encodeAll_cons_eq_some.mp henc
      rw [List.length_cons] at hcount
      have hfeed := FrameMachine.feedAll_unknown hm (hgreased f List.mem_cons_self)
        (fun _ => by omega) hbytes
      have hnext : m.skippedNext ≤ m.skipped + 1 := by
        rw [FrameMachine.skippedNext, if_pos hstream]
        omega
      obtain ⟨m', hfeed', hposition, hstream'⟩ :=
        ih (m := { m.atBoundary with skipped := m.skippedNext }) rfl hstream
          (fun f hf => hgreased f (List.mem_cons_of_mem _ hf)) (by simp only; omega) hmore
      refine ⟨m', ?_, hposition, hstream'⟩
      rw [feedAll_append, hfeed]
      simp only [Outcome.andThen, hfeed']
      rfl

/-- An opening is told apart from what follows it. -/
theorem opening_inj {kinds kinds' : List ℕ} {block block' : List UInt8} {more more' : List Event}
    (h : opening kinds block ++ more = opening kinds' block' ++ more') :
    kinds = kinds' ∧ block = block' ∧ more = more' := by
  induction kinds generalizing kinds' with
  | nil =>
      cases kinds' with
      | nil =>
          cases h
          exact ⟨rfl, rfl, rfl⟩
      | cons kind kinds' => cases h
  | cons kind kinds ih =>
      cases kinds' with
      | nil => cases h
      | cons kind' kinds' =>
          simp only [opening, List.map_cons, List.cons_append, List.cons.injEq,
            Event.skipped.injEq] at h
          obtain ⟨rfl, h⟩ := h
          obtain ⟨rfl, rfl, rfl⟩ := ih h
          exact ⟨rfl, rfl, rfl⟩

/-- What an opening says. -/
theorem requestIn_opening {ε : Type} (ending : ReadError ε) (kinds : List ℕ)
    (block : List UInt8) (more : List Event) :
    requestIn ending (opening kinds block ++ more) =
      (decodeRequest block).mapError .violation := by
  induction kinds with
  | nil => rfl
  | cons kind kinds ih => exact ih

/-- Where there is room, `read_request` is told by the bytes. -/
theorem readRequest_of_room {ε : Type} {r : FrameReader ε} {m : FrameMachine} (h : r.At m)
    {others : Others} (hroom : others.Room) :
    (r.readRequest others).1 = r.requestLeft m ∧ ∀ request,
      (r.readRequest others).1 = .ok request →
        r.LeftAt m request (r.readRequest others).2.1 := by
  rcases readRequest_spec h others with hread | ⟨⟨-, call, hfull⟩, -⟩
  · exact hread
  · exact absurd (hroom call) (Nat.not_le.mpr hfull)

/-- **Reading an opening**: what the block says is returned, and what stands behind the HEADERS
frame is left. -/
theorem readRequest_opening {ε : Type} {r : FrameReader ε} {m m' : FrameMachine} (h : r.At m)
    {others : Others} (hroom : others.Room) {kinds : List ℕ} {block front body : List UInt8}
    (hunread : r.unread = front ++ body)
    (hfeed : feedAll feed m front = ⟨opening kinds block, m', none⟩)
    (hposition : m'.position = .header []) :
    (r.readRequest others).1 = (decodeRequest block).mapError .violation ∧ ∀ request,
      (r.readRequest others).1 = .ok request →
        (r.readRequest others).2.1.recv.failure = r.recv.failure ∧
          (r.readRequest others).2.1.At m' ∧ (r.readRequest others).2.1.unread = body := by
  obtain ⟨hresult, hleft⟩ := readRequest_of_room h hroom
  have hrest : r.rest m = ⟨opening kinds block ++ (feedAll feed m' body).out,
      (feedAll feed m' body).state, (feedAll feed m' body).error⟩ := by
    rw [rest, hunread, feedAll_append, hfeed]
    rfl
  refine ⟨?_, ?_⟩
  · rw [hresult, requestLeft, hrest]
    exact requestIn_opening _ _ _ _
  · intro request hrequest
    obtain ⟨hfailure, used, m'', kinds', block', hat, hposition', hused, hfeed', -⟩ :=
      hleft request hrequest
    have hrest' := rest_of_used hused hfeed'
    obtain ⟨rfl, rfl, -⟩ := opening_inj (congrArg Outcome.out (hrest.symm.trans hrest'))
    obtain ⟨-, rfl, rfl⟩ := FrameMachine.front_unique (hunread.symm.trans hused) hfeed hposition
      hfeed' hposition'
    exact ⟨hfailure, hat, rfl⟩

/-- **A request over the wire.** While the other streams of the connection leave room for one more
frame, what `read_request` returns depends on the bytes of the stream and on how it ends, and not on
the cuts.

Let a stream begin with frames of unknown types, no more than may be skipped, and with a HEADERS
frame within the bound. Then what its block says is returned, and exactly what stands behind the
HEADERS frame is left to be read, from the start of a frame. A block that was encoded from a
well-formed section within the bound gives the request of that section. -/
theorem request_over_the_wire {ε : Type} {others : Others} (hroom : others.Room)
    (recv : RecvStream ε) :
    (∀ (recv' : RecvStream ε) (others' : Others), others'.Room →
      recv'.chunks.flatten = recv.chunks.flatten → recv'.failure = recv.failure →
      ((withKind recv' .request).readRequest others').1 =
        ((withKind recv .request).readRequest others).1) ∧
    ∀ (greased : List WireFrame) (block front body : List UInt8),
      (∀ f ∈ greased, isUnknown f.kind = true) → greased.length ≤ maxSkippedFrames →
      block.length ≤ maxBufferedFrame →
      encodeAll WireFrame.encode (greased ++ [⟨FrameType.headers, block⟩]) = some front →
      recv.chunks.flatten = front ++ body →
      ((withKind recv .request).readRequest others).1 =
          (decodeRequest block).mapError .violation ∧
      (∀ request, ((withKind recv .request).readRequest others).1 = .ok request →
        ((withKind recv .request).readRequest others).2.1.unread = body ∧
        ((withKind recv .request).readRequest others).2.1.decoder.atFrameBoundary = true) ∧
      ∀ pairs, block = Qpack.encode pairs →
        (pairs.map fun (name, value) => name.bytes.length + value.bytes.length + 32).sum ≤
          maxFieldSectionSize →
        WellFormed (pairs.map Qpack.fieldOf) →
        ∃ request, ((withKind recv .request).readRequest others).1 = .ok request ∧
          buildRequest (pairs.map Qpack.fieldOf) = .ok request := by
  have hat := at_withKind recv .request
  refine ⟨?_, ?_⟩
  · intro recv' others' hroom' hchunks hfailure
    rw [(readRequest_of_room (at_withKind recv' .request) hroom').1,
      (readRequest_of_room hat hroom).1]
    have hunread : (withKind recv' .request).unread = (withKind recv .request).unread := hchunks
    rw [requestLeft, requestLeft, rest, rest, hunread]
    exact congrArg (fun failure => requestIn (endingOf failure _) _) hfailure
  · intro greased block front body hgreased hcount hle henc hchunks
    obtain ⟨m', hfeed, hposition, -⟩ := feedAll_opening (m := FrameMachine.new .request) rfl rfl
      hgreased (by simpa [FrameMachine.new] using hcount) hle henc
    obtain ⟨hresult, hleft⟩ := readRequest_opening hat hroom hchunks hfeed hposition
    refine ⟨hresult, ?_, ?_⟩
    · intro request hrequest
      obtain ⟨-, hat', hunread⟩ := hleft request hrequest
      exact ⟨hunread, hat'.represents.atFrameBoundary_iff.mpr hposition⟩
    · rintro pairs rfl hsize hwell
      obtain ⟨request, hbuild⟩ := (exists_buildRequest _).mpr hwell
      refine ⟨request, ?_, hbuild⟩
      rw [hresult, decodeRequest, Qpack.decode_encode_fields, if_pos hsize]
      exact congrArg (Except.mapError _) hbuild

/-- A CONNECT to `a:1` behind one unknown frame, cut inside its HEADERS frame, with the first byte
of the tunnel behind it. -/
theorem request_over_the_wire_greased :
    ((withKind (ε := Empty) ⟨[[0x21, 0x00, 0x01, 0x08, 0x00, 0x00, 0xcf],
        [0x50, 0x03, 0x61, 0x3a, 0x31, 0x00]], none⟩ .request).readRequest fun _ => 0).1 =
      .ok ⟨.connect, none, some (ascii "a:1"), none, none, none, []⟩ := by
  have hroom : Others.Room fun _ => 0 :=
    fun _ => (by decide : 0 + maxBufferedFrame ≤ headersBufferBudget)
  have h := ((request_over_the_wire (ε := Empty) hroom
    ⟨[[0x21, 0x00, 0x01, 0x08, 0x00, 0x00, 0xcf], [0x50, 0x03, 0x61, 0x3a, 0x31, 0x00]],
      none⟩).2 [⟨0x21, []⟩]
    [0x00, 0x00, 0xcf, 0x50, 0x03, 0x61, 0x3a, 0x31]
    [0x21, 0x00, 0x01, 0x08, 0x00, 0x00, 0xcf, 0x50, 0x03, 0x61, 0x3a, 0x31] [0x00]
    (by decide) (by decide) (by decide) (by decide) rfl).1
  have hblock : [0x00, 0x00, 0xcf, 0x50, 0x03, 0x61, 0x3a, 0x31] = Qpack.encode
      [(⟨ascii ":method", by decide⟩, ⟨ascii "CONNECT", by decide⟩),
        (⟨ascii ":authority", by decide⟩, ⟨ascii "a:1", by decide⟩)] := by decide
  rw [h, decodeRequest, hblock, Qpack.decode_encode_fields, if_pos (by decide)]
  rfl

end FrameReader

end Volto
