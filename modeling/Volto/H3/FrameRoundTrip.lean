import Volto.H3.FrameReader
import Volto.H3.WireFrame
import Volto.Lib.Framing

/-!
# Frames Written and Read Back

A sequence of frames, each written as `putHeader` followed by its payload, is read back
frame by frame: one group of items for each, carrying what was written. The decoder stands
between frames exactly after the prefixes that end between two frames, so a reader whose
stream ends there ends cleanly, and one whose stream ends anywhere else reports the
truncation.

The argument is about the byte machine: `feedAll_frame` is one frame, `feedAll_frames` a
sequence of them and `feedAll_front` a prefix of the sequence. `run_refines` and `reads_iff`
carry it to the decoder and to the reader, for every way the stream may be cut.

## Main results

* `feedAll_frame`: a machine between frames reads one frame and is between frames again.
* `decode_encode_frames`: the round trip, for the decoder and for the reader.
-/

namespace Volto

open Framing Incremental

/-! ### The header -/

/-- A header that was written is read back at its last byte and not before. -/
theorem Frame.peekHeader_putHeader {kind length : ℕ} {bs : List UInt8}
    (h : Frame.putHeader kind length = some bs) :
    Frame.peekHeader bs = some (kind, length) ∧
      ∀ k < bs.length, Frame.peekHeader (bs.take k) = none := by
  simp only [Frame.putHeader, bind, Option.bind_eq_some_iff, pure, Option.some.injEq] at h
  obtain ⟨front, hfront, back, hback, rfl⟩ := h
  have hkind := peekVarint_putVarint hfront
  have hlength := peekVarint_putVarint hback []
  rw [List.append_nil] at hlength
  constructor
  · simp [Frame.peekHeader, hkind, hlength]
  · intro k hk
    rw [List.length_append] at hk
    by_cases hlt : k < front.length
    · have := peekVarint_take_eq_none (hkind back) hlt
      simp [Frame.peekHeader, this]
    · have htake : (front ++ back).take k = front ++ back.take (k - front.length) := by
        rw [List.take_append, List.take_of_length_le (by omega)]
      have := peekVarint_take_eq_none hlength (k := k - front.length) (by omega)
      simp [Frame.peekHeader, htake, hkind, this]

namespace FrameMachine

/-- The bytes a payload state still waits for. -/
def due : FrameDecoder.State → ℕ
  | .header => 0
  | .data remaining => remaining
  | .buffering _ remaining => remaining
  | .skipping _ remaining => remaining

/-- The bytes of a written header announce its frame, whatever follows. -/
theorem feedAll_putHeader {m : FrameMachine} (hm : m.position = .header []) {kind length : ℕ}
    {header : List UInt8} (h : Frame.putHeader kind length = some header) (rest : List UInt8) :
    feedAll feed m (header ++ rest) =
      (m.announce kind length).andThen fun m => feedAll feed m rest := by
  obtain ⟨hpeek, hmin⟩ := Frame.peekHeader_putHeader h
  have hne : header ≠ [] := by
    rintro rfl
    cases hpeek
  rw [feedAll_append, feedAll_header_whole hm hne (by simpa using hpeek) (by simpa using hmin)]

/-- A written header whose frame is refused ends the reading, whatever follows. -/
theorem feedAll_refused {m : FrameMachine} (hm : m.position = .header []) {kind length : ℕ}
    {header : List UInt8} (h : Frame.putHeader kind length = some header) {violation : Violation}
    (hb : Frame.begin m.stream kind length = .error violation) (rest : List UInt8) :
    feedAll feed m (header ++ rest) = ⟨[], m.atBoundary, some violation⟩ := by
  rw [feedAll_putHeader hm h, announce, hb, Outcome.stopped_andThen]

/-- A whole DATA payload. -/
theorem enter_data (m : FrameMachine) (payload : List UInt8) :
    ((m.enter [] (.data payload.length)).andThen fun m => feedAll feed m payload) =
      ⟨if payload = [] then [.emptyData] else dataEvents payload true, m.atBoundary, none⟩ := by
  cases payload with
  | nil => rfl
  | cons byte payload =>
      have h := feedAll_data (m := { m with position := .data payload.length }) rfl
        (byte :: payload) (by simp)
      simp only [List.length_cons, enter, Outcome.idle_andThen, h]
      simp [atBoundary]

/-- A whole buffered payload. -/
theorem enter_buffering (m : FrameMachine) (kind : BufferedKind) (payload : List UInt8) :
    ((m.enter [] (.buffering kind payload.length)).andThen fun m => feedAll feed m payload) =
      m.complete kind payload := by
  cases payload with
  | nil => simp [enter]
  | cons byte payload =>
      have h := feedAll_buffering (m := { m with position := .buffering kind [] payload.length })
        rfl (byte :: payload) (by simp)
      simp only [List.length_cons, enter, Outcome.idle_andThen, h]
      simp [complete, atBoundary]

/-- A whole skipped payload. -/
theorem enter_skipping (m : FrameMachine) (kind : ℕ) (payload : List UInt8) :
    ((m.enter [] (.skipping kind payload.length)).andThen fun m => feedAll feed m payload) =
      m.finishSkip kind := by
  cases payload with
  | nil => simp [enter]
  | cons byte payload =>
      have h := feedAll_skipping (m := { m with position := .skipping kind payload.length })
        rfl (byte :: payload) (by simp)
      simp only [List.length_cons, enter, Outcome.idle_andThen, h]
      simp [finishSkip, skippedNext, atBoundary]

/-- A payload of which a byte is missing leaves the machine inside it. -/
theorem enter_part (m : FrameMachine) {state : FrameDecoder.State} {part : List UInt8}
    (hlt : part.length < due state) :
    let o := (m.enter [] state).andThen fun m => feedAll feed m part
    o.error = none ∧ o.state.position ≠ .header [] := by
  cases state with
  | header => simp [due] at hlt
  | data remaining =>
      obtain ⟨more, rfl⟩ := Nat.exists_eq_succ_of_ne_zero (Nat.ne_zero_of_lt hlt)
      have hne : part.length ≠ more + 1 := Nat.ne_of_lt hlt
      have h := feedAll_data (m := { m with position := .data more }) rfl part (Nat.le_of_lt hlt)
      simp only [enter, Outcome.idle_andThen, h, if_neg hne]
      simp
  | buffering kind remaining =>
      obtain ⟨more, rfl⟩ := Nat.exists_eq_succ_of_ne_zero (Nat.ne_zero_of_lt hlt)
      have hne : part.length ≠ more + 1 := Nat.ne_of_lt hlt
      have h := feedAll_buffering (m := { m with position := .buffering kind [] more }) rfl part
        (Nat.le_of_lt hlt)
      simp only [enter, Outcome.idle_andThen, h, if_neg hne]
      simp [Outcome.idle]
  | skipping kind remaining =>
      obtain ⟨more, rfl⟩ := Nat.exists_eq_succ_of_ne_zero (Nat.ne_zero_of_lt hlt)
      have hne : part.length ≠ more + 1 := Nat.ne_of_lt hlt
      have h := feedAll_skipping (m := { m with position := .skipping kind more }) rfl part
        (Nat.le_of_lt hlt)
      simp only [enter, Outcome.idle_andThen, h, if_neg hne]
      simp [Outcome.idle]

/-- A skipped frame within the limit. -/
theorem finishSkip_of_lt {m : FrameMachine} (kind : ℕ)
    (h : m.stream = .request → m.skipped < maxSkippedFrames) :
    m.finishSkip kind =
      ⟨[.skipped kind], { m.atBoundary with skipped := m.skippedNext }, none⟩ := by
  rw [finishSkip]
  rw [if_neg]
  rintro ⟨hreq, hlt⟩
  have := h hreq
  simp only [skippedNext, hreq, if_true] at hlt
  omega

/-! ### One frame -/

/-- What reading one frame establishes. -/
structure ReadsFrame (m : FrameMachine) (f : WireFrame) (events : List Event)
    (m' : FrameMachine) : Prop where
  yields : f.Yields events
  position : m'.position = .header []
  stream : m'.stream = m.stream
  skipped : m'.skipped ≤ m.skipped + (isUnknown f.kind).toNat

/-- A frame that leaves the count alone. -/
theorem readsFrame_atBoundary {m : FrameMachine} {f : WireFrame} {events : List Event}
    (h : f.Yields events) : ReadsFrame m f events m.atBoundary :=
  ⟨h, rfl, rfl, Nat.le_add_right _ _⟩

/-- Reading a buffered frame that parses. -/
theorem enter_buffered {m : FrameMachine} {f : WireFrame} (kind : BufferedKind) {frame : Frame}
    (hentry : f.entry = .buffering kind f.payload.length)
    (hparse : Frame.parse kind f.payload = .ok frame) (hgroup : f.Group [.frame frame]) :
    ∃ events m', ((m.enter [] f.entry).andThen fun m => feedAll feed m f.payload) =
      ⟨events, m', none⟩ ∧ ReadsFrame m f events m' := by
  refine ⟨[.frame frame], m.atBoundary, ?_,
    readsFrame_atBoundary (WireFrame.yields_singleton rfl hgroup)⟩
  rw [hentry, enter_buffering, complete, hparse]

/-- Entering an admissible frame and reading its payload. -/
theorem enter_frame {m : FrameMachine} {f : WireFrame}
    (hadm : WireFrame.Admissible m.stream f)
    (hskip : isUnknown f.kind = true → m.stream = .request → m.skipped < maxSkippedFrames) :
    ∃ events m', ((m.enter [] f.entry).andThen fun m => feedAll feed m f.payload) =
      ⟨events, m', none⟩ ∧ ReadsFrame m f events m' := by
  obtain ⟨kind, payload⟩ := f
  generalize hstream : m.stream = stream at hadm
  cases hadm with
  | data payload =>
      refine ⟨_, _, enter_data m payload, readsFrame_atBoundary ?_⟩
      by_cases hne : payload = []
      · subst hne
        exact WireFrame.yields_singleton rfl .emptyData
      · rw [if_neg hne]
        exact WireFrame.yields_data hne
  | headers hs hle => exact enter_buffered .headers rfl rfl (.headers payload)
  | goaway h =>
      exact enter_buffered .goaway rfl
        (congrArg (Except.map _) (WireFrame.singleVarint_eq h)) (.goaway h)
  | cancelPush h =>
      exact enter_buffered .cancelPush rfl
        (congrArg (Except.map _) (WireFrame.singleVarint_eq h)) (.cancelPush h)
  | maxPushId h =>
      exact enter_buffered .maxPushId rfl
        (congrArg (Except.map _) (WireFrame.singleVarint_eq h)) (.maxPushId h)
  | settings h hle =>
      exact enter_buffered .settings rfl (congrArg (Except.map _) h) (.settings h)
  | unknown h payload =>
      have hentry : WireFrame.entry ⟨kind, payload⟩ = .skipping kind payload.length := by
        simp only [isUnknown, Bool.and_eq_true, decide_eq_true_eq,
          Option.isNone_iff_eq_none] at h
        simp only [WireFrame.entry, h.1.1, h.1.2, if_false]
      refine ⟨[.skipped kind], { m.atBoundary with skipped := m.skippedNext }, ?_,
        WireFrame.yields_singleton rfl (.skipped h payload), rfl, rfl, ?_⟩
      · rw [hentry, enter_skipping, finishSkip_of_lt kind (hskip h)]
      · simp only [h, Bool.toNat_true, skippedNext]
        split_ifs <;> omega

/-- **One frame**: a machine between frames reads an admissible frame and is between frames
again. -/
theorem feedAll_frame {m : FrameMachine} (hm : m.position = .header []) {f : WireFrame}
    (hadm : WireFrame.Admissible m.stream f)
    (hskip : isUnknown f.kind = true → m.stream = .request → m.skipped < maxSkippedFrames)
    {bytes : List UInt8} (henc : f.encode = some bytes) :
    ∃ events m', feedAll feed m bytes = ⟨events, m', none⟩ ∧ ReadsFrame m f events m' := by
  obtain ⟨header, hheader, rfl⟩ := Option.map_eq_some_iff.mp henc
  obtain ⟨events, m', henter, hreads⟩ := enter_frame hadm hskip
  refine ⟨events, m', ?_, hreads⟩
  rw [feedAll_putHeader hm hheader, announce, hadm.begin]
  exact henter

/-- A frame waits for all of its payload. -/
theorem due_entry (f : WireFrame) : due f.entry = f.payload.length := by
  rw [WireFrame.entry]
  split_ifs
  · rfl
  · split <;> rfl

/-- **Part of a frame**: after some of it but not all, the machine is inside it. -/
theorem feedAll_part {m : FrameMachine} (hm : m.position = .header []) {f : WireFrame}
    (hadm : WireFrame.Admissible m.stream f) {part rest : List UInt8}
    (henc : f.encode = some (part ++ rest)) (hpart : part ≠ []) (hrest : rest ≠ []) :
    (feedAll feed m part).error = none ∧
      (feedAll feed m part).state.position ≠ .header [] := by
  obtain ⟨header, hheader, heq⟩ := Option.map_eq_some_iff.mp henc
  by_cases hle : header.length ≤ part.length
  · -- the whole header, and not all of the payload
    obtain ⟨more, rfl⟩ : header <+: part :=
      List.prefix_of_prefix_length_le ⟨_, heq⟩ (List.prefix_append _ _) hle
    have hlt : more.length < due f.entry := by
      have hpos := List.length_pos_of_ne_nil hrest
      have hlen := congrArg List.length heq
      simp only [List.length_append] at hlen
      rw [due_entry]
      omega
    rw [feedAll_putHeader hm hheader, announce, hadm.begin]
    exact enter_part m hlt
  · -- not all of the header
    have htake : header.take part.length = part := by
      have := congrArg (List.take part.length) heq
      rwa [List.take_left, List.take_append_of_le_length (by omega)] at this
    have hnone := (Frame.peekHeader_putHeader hheader).2 part.length (by omega)
    rw [htake] at hnone
    rw [feedAll_header_part hm (by simpa using hnone)]
    exact ⟨rfl, by simpa [Outcome.idle] using hpart⟩

/-! ### Sequences of frames -/

/-- How many frames of a sequence are unknown. -/
def unknownCount (frames : List WireFrame) : ℕ :=
  frames.countP fun f => isUnknown f.kind

/-- What a machine needs to read a sequence of frames: to be between frames, the frames
admissible on its stream, and on a request stream room for skipping the unknown ones. -/
structure Ready (m : FrameMachine) (frames : List WireFrame) : Prop where
  position : m.position = .header []
  admissible : ∀ f ∈ frames, WireFrame.Admissible m.stream f
  skipped : m.stream = .request → m.skipped + unknownCount frames ≤ maxSkippedFrames

/-- Reading the first frame of a sequence. -/
theorem Ready.feedAll_head {m : FrameMachine} {f : WireFrame} {frames : List WireFrame}
    (h : m.Ready (f :: frames)) {bytes : List UInt8} (henc : f.encode = some bytes) :
    ∃ events m', feedAll feed m bytes = ⟨events, m', none⟩ ∧ f.Yields events ∧
      m'.Ready frames := by
  have hcount : unknownCount (f :: frames) = unknownCount frames + (isUnknown f.kind).toNat := by
    simp only [unknownCount]
    cases hf : isUnknown f.kind <;> simp [hf]
  have hskip : isUnknown f.kind = true → m.stream = .request → m.skipped < maxSkippedFrames := by
    intro hunknown hreq
    have := h.skipped hreq
    simp only [hcount, hunknown, Bool.toNat_true] at this
    omega
  obtain ⟨events, m', hfeed, hreads⟩ :=
    feedAll_frame h.position (h.admissible f List.mem_cons_self) hskip henc
  refine ⟨events, m', hfeed, hreads.yields, hreads.position, ?_, ?_⟩
  · intro g hg
    rw [hreads.stream]
    exact h.admissible g (List.mem_cons_of_mem _ hg)
  · intro hreq
    rw [hreads.stream] at hreq
    have hroom := h.skipped hreq
    have hle := hreads.skipped
    rw [hcount] at hroom
    omega

/-- **A sequence of frames** is read frame by frame. -/
theorem Ready.feedAll_frames {m : FrameMachine} {frames : List WireFrame} (h : m.Ready frames)
    {wire : List UInt8} (henc : encodeAll WireFrame.encode frames = some wire) :
    ∃ eventss m', feedAll feed m wire = ⟨eventss.flatten, m', none⟩ ∧
      List.Forall₂ WireFrame.Yields frames eventss ∧ m'.position = .header [] := by
  induction frames generalizing m wire with
  | nil =>
      cases henc
      exact ⟨[], m, rfl, .nil, h.position⟩
  | cons f frames ih =>
      obtain ⟨front, rest, hfront, hrest, rfl⟩ := encodeAll_cons_eq_some.mp henc
      obtain ⟨events, m', hfeed, hyields, hready⟩ := h.feedAll_head hfront
      obtain ⟨eventss, m'', hfeed', hyields', hposition⟩ := ih hready hrest
      refine ⟨events :: eventss, m'', ?_, .cons hyields hyields', hposition⟩
      rw [feedAll_append, hfeed]
      simp only [Outcome.andThen, hfeed', List.flatten_cons]

/-- A written frame is not empty. -/
theorem encode_ne_nil {f : WireFrame} {bytes : List UInt8} (h : f.encode = some bytes) :
    bytes ≠ [] := by
  obtain ⟨header, hheader, rfl⟩ := Option.map_eq_some_iff.mp h
  have hpeek := (Frame.peekHeader_putHeader hheader).1
  rintro hnil
  rw [(List.append_eq_nil_iff.mp hnil).1] at hpeek
  cases hpeek

/-- **A prefix of a sequence** leaves the machine between frames exactly when it ends between
two of them. -/
theorem Ready.feedAll_front {m : FrameMachine} {frames : List WireFrame} (h : m.Ready frames)
    {front back : List UInt8} (henc : encodeAll WireFrame.encode frames = some (front ++ back)) :
    (feedAll feed m front).error = none ∧
      ((feedAll feed m front).state.position = .header [] ↔
        Between WireFrame.encode frames front) := by
  refine front_induction (motive := fun frames front => ∀ {m : FrameMachine}, m.Ready frames →
    (feedAll feed m front).error = none ∧ ((feedAll feed m front).state.position = .header [] ↔
      Between WireFrame.encode frames front)) ?_ ?_ ?_ henc h
  · intro frames m h
    exact ⟨rfl, iff_of_true h.position between_nil⟩
  · -- the first frame is not all there
    intro f frames front back hbytes hfront hback m h
    obtain ⟨herror, hposition⟩ :=
      feedAll_part h.position (h.admissible f List.mem_cons_self) hbytes hfront hback
    exact ⟨herror, iff_of_false hposition (not_between_of_part hbytes hfront hback)⟩
  · -- the first frame is there
    intro f frames bytes front hbytes ih m h
    obtain ⟨events, m', hfeed, -, hready⟩ := h.feedAll_head hbytes
    obtain ⟨herror, hiff⟩ := ih hready
    rw [feedAll_append, hfeed, between_cons_append hbytes (encode_ne_nil hbytes)]
    exact ⟨herror, hiff⟩

end FrameMachine

/-! ### The round trip -/

open FrameMachine in
/-- **Frames written are frames read.** Let a sequence of admissible frames be written one
after the other, with no more unknown ones on a request stream than it may skip.

However the stream is cut, decoding it yields one group of items for each frame, in order,
with what was written, and no violation. After any prefix of it the decoder is between frames
exactly when the prefix ends between two frames; a reader whose stream ends with that prefix
reads the decoder's items and ends cleanly in that case, and with `H3_FRAME_ERROR` in every
other. -/
theorem decode_encode_frames (stream : StreamKind) {frames : List WireFrame}
    (hadm : ∀ f ∈ frames, WireFrame.Admissible stream f)
    (hskip : stream = .request → unknownCount frames ≤ maxSkippedFrames) {wire : List UInt8}
    (henc : encodeAll WireFrame.encode frames = some wire) :
    (∀ chunks : List (List UInt8), chunks.flatten = wire →
      (FrameDecoder.run stream chunks).error = none ∧
      ∃ groups, List.Forall₂ WireFrame.Group frames groups ∧
        groups.flatten = (FrameDecoder.run stream chunks).out) ∧
    ∀ (chunks : List (List UInt8)) (back : List UInt8), chunks.flatten ++ back = wire →
      ((FrameDecoder.run stream chunks).state.1.atFrameBoundary = true ↔
        Between WireFrame.encode frames chunks.flatten) ∧
      ∀ (ε : Type) (items : List Item) (e : Option (ReadError ε)),
        FrameReader.Reads (FrameReader.withKind ⟨chunks, none⟩ stream) BufferBudget.unshared
            items e ↔
          items = (FrameDecoder.run stream chunks).out ∧
          (e = none ∧ Between WireFrame.encode frames chunks.flatten ∨
            e = some (.violation FrameReader.endedMidFrame) ∧
              ¬Between WireFrame.encode frames chunks.flatten) := by
  have hready : (FrameMachine.new stream).Ready frames :=
    ⟨rfl, hadm, fun hreq => by simpa [FrameMachine.new] using hskip hreq⟩
  refine ⟨?_, ?_⟩
  · rintro chunks rfl
    obtain ⟨eventss, m', hfeed, hyields, -⟩ := hready.feedAll_frames henc
    have hrun := FrameDecoder.run_refines stream chunks
    rw [hfeed] at hrun
    exact ⟨hrun.error, WireFrame.groups_of_yields hyields hrun.out⟩
  · rintro chunks back rfl
    obtain ⟨herror, hiff⟩ := hready.feedAll_front henc
    have hrun := FrameDecoder.run_refines stream chunks
    have hboundary := hrun.state.atFrameBoundary_iff.trans hiff
    refine ⟨hboundary, ?_⟩
    intro ε items e
    have hending : FrameReader.ending (ε := ε) none (FrameDecoder.run stream chunks) =
        if (FrameDecoder.run stream chunks).state.1.atFrameBoundary then none
        else some (.violation FrameReader.endedMidFrame) := by
      simp only [FrameReader.ending, hrun.error.trans herror]
    rw [FrameReader.reads_iff, hending, ← hboundary]
    split_ifs with hb <;> simp [hb]

/-- One DATA frame and one unknown frame on a request stream, cut inside the first. -/
theorem decode_encode_frames_data_unknown :
    encodeAll WireFrame.encode [⟨FrameType.data, [0x61]⟩, ⟨0x21, []⟩] =
        some [0x00, 0x01, 0x61, 0x21, 0x00] ∧
      (FrameDecoder.run .request [[0x00, 0x01], [0x61, 0x21, 0x00]]).error = none ∧
      ∃ groups, List.Forall₂ WireFrame.Group [⟨FrameType.data, [0x61]⟩, ⟨0x21, []⟩] groups ∧
        groups.flatten = (FrameDecoder.run .request [[0x00, 0x01], [0x61, 0x21, 0x00]]).out := by
  refine ⟨by decide, (decode_encode_frames .request ?_ (by decide) (by decide)).1 _ rfl⟩
  intro f hf
  simp only [List.mem_cons, List.not_mem_nil, or_false] at hf
  rcases hf with rfl | rfl
  · exact .data [0x61]
  · exact .unknown (by decide) []

/-! ### A SETTINGS frame past the per-frame bound -/

namespace Frame

/-- One pair of a SETTINGS payload that is read and accepted. -/
theorem parseSettingsLoop_pair {settings : Settings} (settings' : Settings) {seen : List ℕ}
    {payload : List UInt8} {identifier used value used' : ℕ}
    (hidentifier : peekVarint payload = some (identifier, used))
    (hvalue : peekVarint (payload.drop used) = some (value, used'))
    (hreserved : reservedHttp2Settings.contains identifier = false)
    (hseen : seen.contains identifier = false)
    (happly : applySetting settings identifier value = .ok settings') :
    parseSettingsLoop settings seen payload =
      parseSettingsLoop settings' (identifier :: seen) ((payload.drop used).drop used') := by
  rw [parseSettingsLoop_of_peek hidentifier hvalue]
  simp only [hreserved, hseen, happly, Bool.false_eq_true, if_false]

/-- A varint in its eight-byte form. -/
def longVarint (value : ℕ) : List UInt8 :=
  BigEndian.toBytes 8 (3 * 2 ^ 62 + value)

/-- A varint written in eight bytes reads as its value. -/
theorem peekVarint_longVarint {value : ℕ} (h : value < 2 ^ 62) (rest : List UInt8) :
    peekVarint (longVarint value ++ rest) = some (value, 8) :=
  peekVarint_toBytes (w := 7) (t := 3) (by decide) (by decide) h rest

/-- Settings this server does not act on, each with value zero and in the longest form. -/
def unusedSettings (identifiers : List ℕ) : List UInt8 :=
  identifiers.flatMap fun identifier => longVarint identifier ++ longVarint 0

/-- Distinct settings this server does not act on are a valid payload. -/
theorem parseSettingsLoop_unusedSettings {settings : Settings} {seen identifiers : List ℕ}
    (hrange : ∀ identifier ∈ identifiers, 0x40 ≤ identifier ∧ identifier < 2 ^ 62)
    (hnodup : identifiers.Nodup) (hseen : ∀ identifier ∈ identifiers, identifier ∉ seen) :
    parseSettingsLoop settings seen (unusedSettings identifiers) = .ok settings := by
  induction identifiers generalizing seen with
  | nil =>
      rw [parseSettingsLoop]
      rfl
  | cons identifier identifiers ih =>
      obtain ⟨hlow, hhigh⟩ := hrange identifier List.mem_cons_self
      have hpayload : unusedSettings (identifier :: identifiers) =
          longVarint identifier ++ (longVarint 0 ++ unusedSettings identifiers) := by
        simp [unusedSettings]
      have hdrop : ∀ value rest, (longVarint value ++ rest).drop 8 = rest := by
        intro value rest
        exact List.drop_left' (BigEndian.length_toBytes 8 _)
      have hreserved : reservedHttp2Settings.contains identifier = false := by
        simp only [reservedHttp2Settings, List.contains_eq_mem, List.mem_cons, List.not_mem_nil,
          or_false, decide_eq_false_iff_not]
        omega
      have hunused : identifier ≠ settingH3Datagram := by
        rw [settingH3Datagram]
        omega
      rw [parseSettingsLoop_pair settings
        (by rw [hpayload]; exact peekVarint_longVarint hhigh _)
        (by rw [hpayload, hdrop]; exact peekVarint_longVarint (by decide) _) hreserved
        (by simpa using hseen identifier List.mem_cons_self)
        (by simp [applySetting, hunused]), hpayload, hdrop, hdrop]
      rw [List.nodup_cons] at hnodup
      refine ih (fun i hi => hrange i (List.mem_cons_of_mem _ hi)) hnodup.2 ?_
      intro i hi hmem
      rcases List.mem_cons.mp hmem with rfl | hmem
      · exact hnodup.1 hi
      · exact hseen i (List.mem_cons_of_mem _ hi) hmem

/-- A valid SETTINGS payload of 65552 bytes. -/
def oversizedSettings : List UInt8 :=
  unusedSettings (List.range' 0x40 4097)

/-- A setting in long varints takes sixteen bytes. -/
theorem length_unusedSettings (identifiers : List ℕ) :
    (unusedSettings identifiers).length = 16 * identifiers.length := by
  induction identifiers with
  | nil => rfl
  | cons identifier identifiers ih =>
      rw [unusedSettings, List.flatMap_cons, List.length_append, ← unusedSettings, ih,
        List.length_append, longVarint, longVarint, BigEndian.length_toBytes,
        BigEndian.length_toBytes, List.length_cons]
      omega

/-- The oversized SETTINGS payload is just above the bound. -/
theorem length_oversizedSettings : oversizedSettings.length = 65552 := by
  rw [oversizedSettings, length_unusedSettings, List.length_range']

end Frame

/-- A SETTINGS frame may be valid and still be refused: the per-frame bound holds on the
control stream too. Nothing is read of it. -/
theorem oversized_settings_refused :
    (∃ settings, Frame.parseSettings Frame.oversizedSettings = .ok settings) ∧
      ∃ wire,
        encodeAll WireFrame.encode [⟨FrameType.settings, Frame.oversizedSettings⟩] = some wire ∧
        (FrameDecoder.run .control [wire]).out = [] ∧
        ∃ detail, (FrameDecoder.run .control [wire]).error =
          some (Violation.fieldSectionTooLarge detail) := by
  refine ⟨⟨Settings.default, ?_⟩, ?_⟩
  · refine Frame.parseSettingsLoop_unusedSettings ?_ List.nodup_range' (by simp)
    intro identifier h
    rw [List.mem_range'_1] at h
    omega
  · obtain ⟨header, hheader⟩ : ∃ header,
        Frame.putHeader FrameType.settings Frame.oversizedSettings.length = some header := by
      rw [Frame.length_oversizedSettings]
      exact ⟨_, rfl⟩
    have hwire : encodeAll WireFrame.encode [⟨FrameType.settings, Frame.oversizedSettings⟩] =
        some (header ++ Frame.oversizedSettings) := by
      simp [encodeAll, WireFrame.encode, hheader]
    obtain ⟨detail, hbegin⟩ : ∃ detail, Frame.begin .control FrameType.settings
        Frame.oversizedSettings.length = .error (Violation.fieldSectionTooLarge detail) := by
      rw [Frame.length_oversizedSettings]
      exact ⟨_, rfl⟩
    have hrun := FrameDecoder.run_refines .control [header ++ Frame.oversizedSettings]
    rw [List.flatten_singleton,
      FrameMachine.feedAll_refused (m := FrameMachine.new .control) rfl hheader hbegin] at hrun
    exact ⟨_, hwire, Item.eq_nil_of_groups hrun.out, detail, hrun.error⟩

end Volto
