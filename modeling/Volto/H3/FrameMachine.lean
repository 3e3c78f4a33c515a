import Volto.H3.FramePass

/-!
# The Frame Decoder, One Byte at a Time

What the frame decoder is for: reading a stream of bytes as a sequence of frames.
`FrameMachine` says so in the plainest way, one byte at a time. Its position is either
inside a header, holding the bytes that have arrived of it, or inside a payload with at
least one byte still to come, so a frame is always announced, completed and reported with
the very byte that settles it. It has no chunk, no budget and no loop.

A decoder holding a chunk has a `meaning` in that machine: settle the state it is in, then
feed the bytes of the chunk. The passes of the decoder's loop preserve that meaning, so
what a decoder reports is what the machine reports when it is fed the same bytes.

## Main results

* `Sound.again`, `Sound.done`: the passes keep a decoder sound.
* `Pass.meaning_again`: going round again does not change the meaning.
* `Pass.meaning_done`: a returning pass reports the front of it and leaves the rest.
-/

namespace Volto

open Incremental

/-- Where in the frame sequence a stream is. In the three payload positions `more + 1`
payload bytes are still to come. -/
inductive Position
  | header (bytes : List UInt8)
  | data (more : ℕ)
  | buffering (kind : BufferedKind) (payload : List UInt8) (more : ℕ)
  | skipping (kind : ℕ) (more : ℕ)
deriving DecidableEq, Repr

/-- What reading one byte can report: a byte of DATA and whether it is the frame's last, an
empty DATA frame, a whole frame of another known type, the end of a skipped one. -/
inductive Event
  | byte (byte : UInt8) (last : Bool)
  | emptyData
  | frame (frame : Frame)
  | skipped (kind : ℕ)
deriving DecidableEq, Repr

/-- A stream of frames read one byte at a time. -/
structure FrameMachine where
  stream : StreamKind
  skipped : ℕ
  position : Position
deriving DecidableEq, Repr

/-- The bytes of one piece of DATA, the last of which may end its frame. -/
def dataEvents : List UInt8 → Bool → List Event
  | [], _ => []
  | [byte], last => [.byte byte last]
  | byte :: byte' :: bytes, last => .byte byte false :: dataEvents (byte' :: bytes) last

/-- One more byte in front of a piece that does not end with it. -/
theorem dataEvents_cons (byte : UInt8) {bytes : List UInt8} {last : Bool}
    (h : bytes = [] → last = false) :
    dataEvents (byte :: bytes) last = .byte byte false :: dataEvents bytes last := by
  cases bytes with
  | nil => simp [dataEvents, h rfl]
  | cons byte' bytes => rfl

/-- What one reading step does. -/
abbrev FrameMachine.Step := Outcome FrameMachine Event Violation

namespace FrameMachine

/-- A stream of which nothing has been read. -/
def new (stream : StreamKind) : FrameMachine :=
  ⟨stream, 0, .header []⟩

/-- The machine between two frames. -/
def atBoundary (m : FrameMachine) : FrameMachine :=
  { m with position := .header [] }

/-- A buffered frame is whole. -/
def complete (m : FrameMachine) (kind : BufferedKind) (payload : List UInt8) : Step :=
  match Frame.parse kind payload with
  | .ok frame => ⟨[.frame frame], m.atBoundary, none⟩
  | .error violation => ⟨[], m.atBoundary, some violation⟩

/-- The number of skipped frames after one more on this stream. -/
def skippedNext (m : FrameMachine) : ℕ :=
  if m.stream = .request then min (m.skipped + 1) u32Max else m.skipped

/-- The last byte of a skipped frame has gone by. -/
def finishSkip (m : FrameMachine) (kind : ℕ) : Step :=
  if m.stream = .request ∧ maxSkippedFrames < m.skippedNext then
    ⟨[], { m.atBoundary with skipped := m.skippedNext },
      some (Violation.stream Code.h3ExcessiveLoad
        (s!"more than {maxSkippedFrames} reserved or unknown frames were skipped on this " ++
          "request stream before a request arrived"))⟩
  else
    ⟨[.skipped kind], { m.atBoundary with skipped := m.skippedNext }, none⟩

/-- Enter a payload of which `remaining` bytes are to come, with `payload` already there: a
frame with nothing to come is over at once. -/
def enter (m : FrameMachine) (payload : List UInt8) : FrameDecoder.State → Step
  | .header => Outcome.idle m.atBoundary
  | .data 0 => ⟨[.emptyData], m.atBoundary, none⟩
  | .data (more + 1) => Outcome.idle { m with position := .data more }
  | .buffering kind 0 => m.complete kind payload
  | .buffering kind (more + 1) => Outcome.idle { m with position := .buffering kind payload more }
  | .skipping kind 0 => m.finishSkip kind
  | .skipping kind (more + 1) => Outcome.idle { m with position := .skipping kind more }

/-- A frame of type `kind` and length `length` is announced. -/
def announce (m : FrameMachine) (kind length : ℕ) : Step :=
  match Frame.begin m.stream kind length with
  | .error violation => ⟨[], m.atBoundary, some violation⟩
  | .ok state => m.enter [] state

/-- Read one byte. -/
def feed (m : FrameMachine) (byte : UInt8) : Step :=
  match m.position with
  | .header bytes =>
      match Frame.peekHeader (bytes ++ [byte]) with
      | none => Outcome.idle { m with position := .header (bytes ++ [byte]) }
      | some (kind, length) => m.announce kind length
  | .data 0 => ⟨[.byte byte true], m.atBoundary, none⟩
  | .data (more + 1) => ⟨[.byte byte false], { m with position := .data more }, none⟩
  | .buffering kind payload 0 => m.complete kind (payload ++ [byte])
  | .buffering kind payload (more + 1) =>
      Outcome.idle { m with position := .buffering kind (payload ++ [byte]) more }
  | .skipping kind 0 => m.finishSkip kind
  | .skipping kind (more + 1) => Outcome.idle { m with position := .skipping kind more }

/-! ### Reading several bytes of one frame -/

/-- Entering a payload forgets where the machine was before. -/
theorem enter_position (m : FrameMachine) (position : Position) (payload : List UInt8)
    (state : FrameDecoder.State) :
    { m with position := position }.enter payload state = m.enter payload state := by
  rcases state with _ | (_ | more) | ⟨kind, _ | more⟩ | ⟨kind, _ | more⟩ <;> rfl

/-- So does announcing a frame. -/
theorem announce_position (m : FrameMachine) (position : Position) (kind length : ℕ) :
    { m with position := position }.announce kind length = m.announce kind length := by
  simp only [announce, enter_position]
  rfl

/-- Bytes that do not complete the header are kept. -/
theorem feedAll_header_part {m : FrameMachine} {bytes : List UInt8}
    (hm : m.position = .header bytes) {more : List UInt8}
    (hp : Frame.peekHeader (bytes ++ more) = none) :
    feedAll feed m more = Outcome.idle { m with position := .header (bytes ++ more) } := by
  induction more generalizing m bytes with
  | nil =>
      rw [feedAll_nil, List.append_nil, ← hm]
  | cons byte more ih =>
      have hnone : Frame.peekHeader (bytes ++ [byte]) = none := by
        rw [Option.eq_none_iff_forall_ne_some]
        intro r hr
        have := Frame.peekHeader_append hr more
        rw [List.append_assoc, List.singleton_append, hp] at this
        cases this
      rw [feedAll_cons, feed, hm]
      simp only [hnone, Outcome.idle_andThen]
      rw [@ih _ (bytes ++ [byte]) rfl (by simpa using hp)]
      simp

/-- The bytes that complete a header announce its frame. -/
theorem feedAll_header_whole {m : FrameMachine} {bytes : List UInt8}
    (hm : m.position = .header bytes) {used : List UInt8} (hne : used ≠ []) {kind length : ℕ}
    (hp : Frame.peekHeader (bytes ++ used) = some (kind, length))
    (hmin : ∀ k < used.length, Frame.peekHeader (bytes ++ used.take k) = none) :
    feedAll feed m used = m.announce kind length := by
  obtain ⟨front, last, rfl⟩ : ∃ front last, used = front ++ [last] :=
    ⟨used.dropLast, used.getLast hne, (List.dropLast_append_getLast hne).symm⟩
  have hfront : Frame.peekHeader (bytes ++ front) = none := by
    have := hmin front.length (by simp)
    rwa [List.take_left] at this
  rw [feedAll_append, feedAll_header_part hm hfront, Outcome.idle_andThen, feedAll_cons, feed]
  rw [← List.append_assoc] at hp
  simp only [hp, announce_position]
  exact Outcome.andThen_idle _

/-- DATA bytes are reported one by one, and the frame ends with its last one. -/
theorem feedAll_data {m : FrameMachine} {more : ℕ} (hm : m.position = .data more)
    (piece : List UInt8) (hlen : piece.length ≤ more + 1) :
    feedAll feed m piece =
      ⟨dataEvents piece (piece.length = more + 1),
        if piece.length = more + 1 then m.atBoundary
        else { m with position := .data (more - piece.length) }, none⟩ := by
  induction piece generalizing m more with
  | nil => simp [Outcome.idle, dataEvents, ← hm]
  | cons byte piece ih =>
      rw [feedAll_cons, feed, hm]
      cases more with
      | zero =>
          have hnil : piece = [] := by
            rw [List.length_cons] at hlen
            exact List.length_eq_zero_iff.mp (by omega)
          subst hnil
          rfl
      | succ more =>
          rw [List.length_cons] at hlen
          simp only [Outcome.andThen]
          rw [ih rfl (by omega), dataEvents_cons byte (by rintro rfl; simp)]
          simp [atBoundary]

/-- Bytes of a buffered frame are kept until the last one completes it. -/
theorem feedAll_buffering {m : FrameMachine} {kind : BufferedKind} {payload : List UInt8}
    {more : ℕ} (hm : m.position = .buffering kind payload more) (piece : List UInt8)
    (hlen : piece.length ≤ more + 1) :
    feedAll feed m piece =
      if piece.length = more + 1 then m.complete kind (payload ++ piece)
      else Outcome.idle
        { m with position := .buffering kind (payload ++ piece) (more - piece.length) } := by
  have hself : m = { m with position := .buffering kind payload more } := by rw [← hm]
  conv_lhs => rw [hself]
  exact feedAll_countdown feed
    (fun payload more => { m with position := .buffering kind payload more }) (m.complete kind)
    (fun _ _ _ => rfl) (fun _ _ => rfl) payload piece hlen

/-- Bytes of a skipped frame are discarded until the last one ends it. -/
theorem feedAll_skipping {m : FrameMachine} {kind more : ℕ}
    (hm : m.position = .skipping kind more) (piece : List UInt8)
    (hlen : piece.length ≤ more + 1) :
    feedAll feed m piece =
      if piece.length = more + 1 then m.finishSkip kind
      else Outcome.idle { m with position := .skipping kind (more - piece.length) } := by
  have hself : m = { m with position := .skipping kind more } := by rw [← hm]
  conv_lhs => rw [hself]
  exact feedAll_countdown feed (fun _ more => { m with position := .skipping kind more })
    (fun _ => m.finishSkip kind) (fun _ _ _ => rfl) (fun _ _ => rfl) [] piece hlen

end FrameMachine

/-! ### The meaning of a decoder -/

/-- The events an item stands for. A piece of DATA does not say whether it ends its
frame. -/
def Item.Renders : Item → List Event → Prop
  | .data [], events => events = [.emptyData]
  | .data (byte :: bytes), events => ∃ last, events = dataEvents (byte :: bytes) last
  | .frame f, events => events = [.frame f]
  | .skipped kind, events => events = [.skipped kind]

/-- A DATA item renders to its bytes, one event each. -/
theorem Item.renders_data {bytes : List UInt8} (h : bytes ≠ []) (last : Bool) :
    (Item.data bytes).Renders (dataEvents bytes last) := by
  cases bytes with
  | nil => exact absurd rfl h
  | cons byte bytes => exact ⟨last, rfl⟩

namespace FrameDecoder

open FrameMachine (feed)

/-- The machine with this decoder's stream, count and header bytes. -/
def machine (d : FrameDecoder) : FrameMachine :=
  ⟨d.stream, d.skipped, .header d.header⟩

/-- The decoder's state as a machine: a payload with nothing to come is over already. -/
def settle (d : FrameDecoder) : FrameMachine.Step :=
  if d.state = .header then Outcome.idle d.machine else d.machine.enter d.payload d.state

/-- What the decoder is about to do: settle, then read its chunk. -/
def meaning (d : FrameDecoder) : FrameMachine.Step :=
  d.settle.andThen fun m => feedAll feed m d.chunk

/-- What a returning call says, at the machine it leaves behind. -/
def Reports (result : Except Violation (Option Item)) (m : FrameMachine)
    (step : FrameMachine.Step) : Prop :=
  match result with
  | .ok none => step = Outcome.idle m
  | .ok (some item) => ∃ events, item.Renders events ∧ step = ⟨events, m, none⟩
  | .error violation => step = ⟨[], m, some violation⟩

/-- The invariant of a decoder with a budget of its own: header bytes are an unfinished
header and are there only between frames, payload bytes and a charge only while a frame is
being buffered, and the budget holds exactly this decoder's charge. -/
structure Sound (d : FrameDecoder) (budget : BufferBudget) : Prop where
  header_short : d.state = .header → Frame.peekHeader d.header = none
  header_nil : d.state ≠ .header → d.header = []
  payload_nil : (∀ kind remaining, d.state ≠ .buffering kind remaining) → d.payload = []
  charged_zero : (∀ kind remaining, d.state ≠ .buffering kind remaining) → d.charged = 0
  held_eq : budget.held = d.charged

/-- A fresh decoder is sound. -/
theorem sound_new (stream : StreamKind) : Sound (new stream) BufferBudget.unshared where
  header_short _ := rfl
  header_nil h := absurd rfl h
  payload_nil _ := rfl
  charged_zero _ := rfl
  held_eq := rfl

/-- Soundness does not look at the chunk. -/
theorem Sound.push {d : FrameDecoder} {budget : BufferBudget} (h : d.Sound budget)
    (chunk : List UInt8) : (d.push chunk).Sound budget :=
  ⟨h.header_short, h.header_nil, h.payload_nil, h.charged_zero, h.held_eq⟩

/-- A decoder with a budget of its own is never refused a charge. -/
theorem Sound.charge {d : FrameDecoder} {budget : BufferBudget} (h : d.Sound budget)
    (hs : d.state = .header) {length : ℕ} (hlen : length ≤ maxBufferedFrame) :
    budget.charge length = .ok ⟨length⟩ := by
  have hheld : budget.held = 0 := by
    rw [h.held_eq]
    exact h.charged_zero (by simp [hs])
  have hle : length ≤ 65536 := hlen
  have hmin : min (0 + length) usizeMax = length := by
    rw [usizeMax]
    omega
  rw [BufferBudget.charge]
  rw [hheld, hmin, if_pos]
  rw [headersBufferBudget]
  omega

/-- Going round again keeps the decoder sound. -/
theorem Sound.again {d d' : FrameDecoder} {budget budget' : BufferBudget} (h : d.Sound budget)
    (hpass : Pass d budget (.again d' budget')) : d'.Sound budget' := by
  cases hpass with
  | announceBuffered hs hc hp hmin hb hcharge =>
      rw [h.charge hs (Frame.begin_eq_buffering hb).2.2.1] at hcharge
      cases hcharge
      exact ⟨by simp, by simp, by simp, by simp, rfl⟩
  | announceData hs hc hp hmin hb =>
      have hnb : ∀ kind remaining, d.state ≠ .buffering kind remaining := by simp [hs]
      exact ⟨by simp, by simp, fun _ => h.payload_nil hnb, fun _ => h.charged_zero hnb, h.held_eq⟩
  | announceSkipped hs hc hp hmin hb =>
      have hnb : ∀ kind remaining, d.state ≠ .buffering kind remaining := by simp [hs]
      exact ⟨by simp, by simp, fun _ => h.payload_nil hnb, fun _ => h.charged_zero hnb, h.held_eq⟩

/-- Between frames a sound decoder holds nothing but header bytes. -/
theorem Sound.of_header {d d' : FrameDecoder} {budget : BufferBudget} (h : d.Sound budget)
    (hnb : ∀ kind remaining, d.state ≠ .buffering kind remaining) (hs' : d'.state = .header)
    (hheader : Frame.peekHeader d'.header = none) (hpayload : d'.payload = d.payload)
    (hcharged : d'.charged = d.charged) : d'.Sound budget where
  header_short _ := hheader
  header_nil hne := absurd hs' hne
  payload_nil _ := hpayload.trans (h.payload_nil hnb)
  charged_zero _ := hcharged.trans (h.charged_zero hnb)
  held_eq := h.held_eq.trans hcharged.symm

/-- Returning keeps the decoder sound. -/
theorem Sound.done {d d' : FrameDecoder} {budget budget' : BufferBudget}
    {result : Except Violation (Option Item)} (h : d.Sound budget)
    (hpass : Pass d budget (.done result d' budget')) : d'.Sound budget' := by
  cases hpass with
  | headerPartial hs hp => exact h.of_header (by simp [hs]) hs hp rfl rfl
  | refused hs hc hp hmin hb => exact h.of_header (by simp [hs]) rfl rfl rfl rfl
  | overBudget hs hc hp hmin hb hcharge => exact h.of_header (by simp [hs]) rfl rfl rfl rfl
  | dataEmpty hs =>
      refine h.of_header (by simp [hs]) rfl ?_ rfl rfl
      simp only [h.header_nil (by simp [hs])]
      rfl
  | dataWait hs hr hc => exact h
  | @dataPiece remaining hs hr hc =>
      have hnil : d.header = [] := h.header_nil (by simp [hs])
      have hnb : ∀ kind remaining, d.state ≠ .buffering kind remaining := by simp [hs]
      by_cases hle : remaining ≤ d.chunk.length
      · exact h.of_header hnb (by simp [hle]) (by simp only [hnil]; rfl) rfl rfl
      · exact ⟨by simp [hle], fun _ => hnil, fun _ => h.payload_nil hnb,
          fun _ => h.charged_zero hnb, h.held_eq⟩
  | bufferMore hs hlt =>
      exact ⟨by simp, fun _ => h.header_nil (by simp [hs]), by simp, by simp, h.held_eq⟩
  | bufferWhole hs hle =>
      have hnil : d.header = [] := h.header_nil (by simp [hs])
      refine ⟨fun _ => by simp only [hnil]; rfl, by simp, fun _ => rfl, fun _ => rfl, ?_⟩
      rw [BufferBudget.release]
      split_ifs
      · simp [h.held_eq]
      · simp only [h.held_eq]
        omega
  | skipMore hs hlt =>
      have hnb : ∀ kind remaining, d.state ≠ .buffering kind remaining := by simp [hs]
      exact ⟨by simp, fun _ => h.header_nil (by simp [hs]), fun _ => h.payload_nil hnb,
        fun _ => h.charged_zero hnb, h.held_eq⟩
  | skipWhole hs hle hcount =>
      obtain ⟨skipped, rfl⟩ := countSkip_eq hcount
      refine h.of_header (by simp [hs]) rfl ?_ rfl rfl
      simp only [h.header_nil (by simp [hs])]
      rfl
  | skipFlood hs hle hcount =>
      obtain ⟨skipped, rfl⟩ := countSkip_eq hcount
      refine h.of_header (by simp [hs]) rfl ?_ rfl rfl
      simp only [h.header_nil (by simp [hs])]
      rfl

/-! ### The passes preserve the meaning -/

/-- The meaning of a decoder between frames whose chunk completes a header. -/
theorem Sound.meaning_header {d : FrameDecoder} {budget : BufferBudget} (h : d.Sound budget)
    (hs : d.state = .header) {used rest : List UInt8} (hc : d.chunk = used ++ rest)
    {kind length : ℕ} (hp : Frame.peekHeader (d.header ++ used) = some (kind, length))
    (hmin : ∀ k < used.length, Frame.peekHeader (d.header ++ used.take k) = none) :
    d.meaning = (d.machine.announce kind length).andThen fun m => feedAll feed m rest := by
  have hne : used ≠ [] := by
    rintro rfl
    rw [List.append_nil, h.header_short hs] at hp
    cases hp
  rw [meaning, settle, if_pos hs, hc, Outcome.idle_andThen, feedAll_append,
    FrameMachine.feedAll_header_whole rfl hne hp hmin]

/-- Announcing a frame and entering its payload are one thing. -/
theorem Sound.meaning_announce {d : FrameDecoder} {budget : BufferBudget} (h : d.Sound budget)
    (d' : FrameDecoder) (hs : d.state = .header) {kind length : ℕ}
    (hb : Frame.begin d.stream kind length = .ok d'.state) (hs' : d'.state ≠ .header)
    (hstream : d'.stream = d.stream) (hskipped : d'.skipped = d.skipped)
    (hpayload : d'.payload = d.payload) : d.machine.announce kind length = d'.settle := by
  have hnil : d'.payload = [] := hpayload.trans (h.payload_nil (by simp [hs]))
  have hm : d'.machine = { d.machine with position := .header d'.header } := by
    simp only [machine, hstream, hskipped]
  rw [settle, if_neg hs', hnil, hm, FrameMachine.enter_position, FrameMachine.announce]
  simp only [machine, hb]

/-- **Going round again changes nothing**: the pass has moved a header from the chunk into
the state, and the decoder is still about to do the same. -/
theorem Pass.meaning_again {d d' : FrameDecoder} {budget budget' : BufferBudget}
    (h : d.Sound budget) (hpass : Pass d budget (.again d' budget')) :
    d.meaning = d'.meaning := by
  cases hpass with
  | announceBuffered hs hc hp hmin hb hcharge =>
      rw [h.meaning_header hs hc hp hmin, meaning]
      rw [h.meaning_announce { d with header := [], chunk := _, charged := _, state := _ }
        hs hb (by simp) rfl rfl rfl]
  | announceData hs hc hp hmin hb =>
      rw [h.meaning_header hs hc hp hmin, meaning]
      rw [h.meaning_announce { d with header := [], chunk := _, state := _ }
        hs hb (by simp) rfl rfl rfl]
  | announceSkipped hs hc hp hmin hb =>
      rw [h.meaning_header hs hc hp hmin, meaning]
      rw [h.meaning_announce { d with header := [], chunk := _, state := _ }
        hs hb (by simp) rfl rfl rfl]

/-- What a returning pass has to establish: the decoder it leaves is settled, and what the
decoder was about to do is what was reported followed by what it is about to do now. -/
def Returns (d : FrameDecoder) (result : Except Violation (Option Item))
    (d' : FrameDecoder) : Prop :=
  ∃ m step, d'.settle = Outcome.idle m ∧ Reports result m step ∧
    d.meaning = (step.andThen fun m => feedAll feed m d'.chunk) ∧
    (result = .ok none → d'.chunk = [])

/-- Between frames a decoder is settled. -/
theorem settle_header {d : FrameDecoder} (hs : d.state = .header) :
    d.settle = Outcome.idle d.machine :=
  if_pos hs

/-- The meaning of a decoder inside a payload. -/
theorem meaning_payload {d : FrameDecoder} (hs : d.state ≠ .header) :
    d.meaning = (d.machine.enter d.payload d.state).andThen fun m => feedAll feed m d.chunk := by
  rw [meaning, settle, if_neg hs]

/-- A pass inside a DATA payload that hands out a piece of it. -/
theorem returns_dataPiece {d : FrameDecoder} (hnil : d.header = []) {remaining : ℕ}
    (hs : d.state = .data remaining) (hr : remaining ≠ 0) (hc : d.chunk ≠ []) :
    d.Returns (.ok (some (.data (d.chunk.take remaining))))
      { d with
        chunk := d.chunk.drop remaining
        state := if remaining ≤ d.chunk.length then .header
          else .data (remaining - d.chunk.length) } := by
  obtain ⟨more, rfl⟩ := Nat.exists_eq_succ_of_ne_zero hr
  have hpiece : d.chunk.take (more + 1) ≠ [] := by simp [hc]
  have hmeaning : d.meaning = ((feedAll feed { d.machine with position := .data more }
      (d.chunk.take (more + 1))).andThen fun m => feedAll feed m (d.chunk.drop (more + 1))) := by
    rw [meaning_payload (by simp [hs]), hs, ← feedAll_append, List.take_append_drop]
    rfl
  rw [FrameMachine.feedAll_data rfl _ (by simp)] at hmeaning
  by_cases hle : more + 1 ≤ d.chunk.length
  · refine ⟨d.machine.atBoundary, _, ?_, ⟨_, Item.renders_data hpiece true, rfl⟩, ?_, by simp⟩
    · rw [settle_header (by simp [hle])]
      simp [machine, FrameMachine.atBoundary, hnil]
    · rw [hmeaning]
      simp [FrameMachine.atBoundary, hle]
  · refine ⟨{ d.machine with position := .data (more - d.chunk.length) }, _, ?_,
      ⟨_, Item.renders_data hpiece false, rfl⟩, ?_, by simp⟩
    · have hsub : more + 1 - d.chunk.length = (more - d.chunk.length) + 1 := by omega
      simp only [settle, if_neg hle, hsub, reduceCtorEq, if_false]
      rfl
    · have htake : d.chunk.take (more + 1) = d.chunk := List.take_of_length_le (by omega)
      have hne : d.chunk.length ≠ more + 1 := by omega
      rw [hmeaning]
      simp only [htake, hne, if_false, decide_false]

/-- A pass that buffers all of the chunk and needs more. -/
theorem returns_bufferMore {d : FrameDecoder} {kind : BufferedKind} {remaining : ℕ}
    (hs : d.state = .buffering kind remaining) (hlt : d.chunk.length < remaining) :
    d.Returns (.ok none)
      { d with
        payload := d.payload ++ d.chunk
        chunk := []
        state := .buffering kind (remaining - d.chunk.length) } := by
  obtain ⟨more, rfl⟩ := Nat.exists_eq_succ_of_ne_zero (Nat.ne_zero_of_lt hlt)
  refine ⟨{ d.machine with
    position := .buffering kind (d.payload ++ d.chunk) (more - d.chunk.length) }, _, ?_, rfl, ?_,
      by simp⟩
  · have hsub : more + 1 - d.chunk.length = (more - d.chunk.length) + 1 := by omega
    simp only [settle, Nat.succ_eq_add_one, hsub, reduceCtorEq, if_false]
    rfl
  · have hfeed := FrameMachine.feedAll_buffering
      (m := { d.machine with position := .buffering kind d.payload more }) rfl d.chunk (by omega)
    rw [if_neg (by omega)] at hfeed
    rw [meaning_payload (by simp [hs]), hs]
    exact hfeed

/-- A pass that completes a buffered frame. -/
theorem returns_bufferWhole {d : FrameDecoder} (hnil : d.header = []) {kind : BufferedKind}
    {remaining : ℕ} (hs : d.state = .buffering kind remaining)
    (hle : remaining ≤ d.chunk.length) :
    d.Returns ((Frame.parse kind (d.payload ++ d.chunk.take remaining)).map
        fun f => some (.frame f))
      { d with
        payload := [], chunk := d.chunk.drop remaining, charged := 0, state := .header } := by
  have hmeaning : d.meaning = ((d.machine.complete kind
      (d.payload ++ d.chunk.take remaining)).andThen
        fun m => feedAll feed m (d.chunk.drop remaining)) := by
    rw [meaning_payload (by simp [hs]), hs]
    cases remaining with
    | zero => simp [FrameMachine.enter]
    | succ more =>
        have hfeed := FrameMachine.feedAll_buffering
          (m := { d.machine with position := .buffering kind d.payload more }) rfl
          (d.chunk.take (more + 1)) (by simp)
        rw [if_pos (by simpa using hle)] at hfeed
        have hcomplete : d.machine.complete kind (d.payload ++ d.chunk.take (more + 1)) =
            feedAll feed { d.machine with position := .buffering kind d.payload more }
              (d.chunk.take (more + 1)) := hfeed.symm
        rw [hcomplete, ← feedAll_append, List.take_append_drop]
        rfl
  refine ⟨d.machine.atBoundary, _, ?_, ?_, hmeaning, ?_⟩
  · rw [settle_header rfl]
    simp [machine, FrameMachine.atBoundary, hnil]
  · rw [FrameMachine.complete]
    cases Frame.parse kind (d.payload ++ d.chunk.take remaining) with
    | ok f => exact ⟨_, rfl, rfl⟩
    | error violation => rfl
  · cases Frame.parse kind (d.payload ++ d.chunk.take remaining) <;> simp [Except.map]

/-- What a call returns when a skipped frame ends and its count was `violation`. -/
def skipResult (kind : ℕ) : Option Violation → Except Violation (Option Item)
  | some violation => .error violation
  | none => .ok (some (.skipped kind))

/-- The end of a skipped frame is what the decoder's own count makes of it. -/
theorem reports_finishSkip {d : FrameDecoder} (hnil : d.header = []) (kind : ℕ) :
    Reports (skipResult kind d.countSkip.1) d.countSkip.2.machine
      (d.machine.finishSkip kind) := by
  rw [FrameMachine.finishSkip, countSkip, FrameMachine.skippedNext, FrameMachine.atBoundary]
  by_cases hreq : d.stream = .request
  · by_cases hmax : maxSkippedFrames < min (d.skipped + 1) u32Max
    · simp [machine, hreq, hmax, hnil, skipResult, Reports]
    · simp [machine, hreq, hmax, hnil, skipResult, Reports, Item.Renders]
  · simp [machine, hreq, hnil, skipResult, Reports, Item.Renders]

/-- The meaning of a decoder whose chunk completes the frame it is skipping. -/
theorem meaning_skipWhole {d : FrameDecoder} {kind remaining : ℕ}
    (hs : d.state = .skipping kind remaining) (hle : remaining ≤ d.chunk.length) :
    d.meaning = ((d.machine.finishSkip kind).andThen
      fun m => feedAll feed m (d.chunk.drop remaining)) := by
  rw [meaning_payload (by simp [hs]), hs]
  cases remaining with
  | zero => simp [FrameMachine.enter]
  | succ more =>
      have hfeed := FrameMachine.feedAll_skipping
        (m := { d.machine with position := .skipping kind more }) rfl
        (d.chunk.take (more + 1)) (by simp)
      rw [if_pos (by simpa using hle)] at hfeed
      have hfinish : d.machine.finishSkip kind =
          feedAll feed { d.machine with position := .skipping kind more }
            (d.chunk.take (more + 1)) := hfeed.symm
      rw [hfinish, ← feedAll_append, List.take_append_drop]
      rfl

/-- A pass that completes a skipped frame, within the limit or past it. -/
theorem returns_skipWhole {d d' : FrameDecoder} (hnil : d.header = []) {kind remaining : ℕ}
    (hs : d.state = .skipping kind remaining) (hle : remaining ≤ d.chunk.length)
    {violation : Option Violation}
    (hcount : { d with chunk := d.chunk.drop remaining, state := .header }.countSkip =
      (violation, d')) :
    d.Returns (skipResult kind violation) d' := by
  obtain ⟨skipped, hd'⟩ := countSkip_eq hcount
  have hfinish := reports_finishSkip
    (d := { d with chunk := d.chunk.drop remaining, state := .header }) hnil kind
  rw [hcount] at hfinish
  refine ⟨d'.machine, _, settle_header (by rw [hd']), hfinish, ?_,
    by cases violation <;> simp [skipResult]⟩
  rw [meaning_skipWhole hs hle, hd']
  rfl

/-- A pass that discards all of the chunk and needs more. -/
theorem returns_skipMore {d : FrameDecoder} {kind remaining : ℕ}
    (hs : d.state = .skipping kind remaining) (hlt : d.chunk.length < remaining) :
    d.Returns (.ok none)
      { d with chunk := [], state := .skipping kind (remaining - d.chunk.length) } := by
  obtain ⟨more, rfl⟩ := Nat.exists_eq_succ_of_ne_zero (Nat.ne_zero_of_lt hlt)
  refine ⟨{ d.machine with position := .skipping kind (more - d.chunk.length) }, _, ?_, rfl, ?_,
    by simp⟩
  · have hsub : more + 1 - d.chunk.length = (more - d.chunk.length) + 1 := by omega
    simp only [settle, Nat.succ_eq_add_one, hsub, reduceCtorEq, if_false]
    rfl
  · have hfeed := FrameMachine.feedAll_skipping
      (m := { d.machine with position := .skipping kind more }) rfl d.chunk (by omega)
    rw [if_neg (by omega)] at hfeed
    rw [meaning_payload (by simp [hs]), hs]
    exact hfeed

/-- **A returning pass reports the front of the meaning** and leaves the rest of it. -/
theorem Pass.meaning_done {d d' : FrameDecoder} {budget budget' : BufferBudget}
    {result : Except Violation (Option Item)} (h : d.Sound budget)
    (hpass : Pass d budget (.done result d' budget')) : d.Returns result d' := by
  cases hpass with
  | headerPartial hs hp =>
      refine ⟨_, _, settle_header hs, rfl, ?_, fun _ => rfl⟩
      rw [meaning, settle_header hs]
      exact FrameMachine.feedAll_header_part rfl hp
  | refused hs hc hp hmin hb =>
      refine ⟨_, _, settle_header rfl, rfl, ?_, by simp⟩
      rw [h.meaning_header hs hc hp hmin, FrameMachine.announce]
      simp only [machine, hb]
      rfl
  | overBudget hs hc hp hmin hb hcharge =>
      rw [h.charge hs (Frame.begin_eq_buffering hb).2.2.1] at hcharge
      cases hcharge
  | dataEmpty hs =>
      have hnil : d.header = [] := h.header_nil (by simp [hs])
      refine ⟨_, _, settle_header rfl, ⟨_, rfl, rfl⟩, ?_, by simp⟩
      rw [meaning_payload (by simp [hs]), hs]
      simp only [machine, hnil]
      rfl
  | @dataWait remaining hs hr hc =>
      obtain ⟨more, rfl⟩ := Nat.exists_eq_succ_of_ne_zero hr
      refine ⟨{ d.machine with position := .data more }, _, ?_, rfl, ?_, fun _ => hc⟩
      · simp only [settle, hs, reduceCtorEq, if_false]
        rfl
      · rw [meaning_payload (by simp [hs]), hs]
        rfl
  | dataPiece hs hr hc => exact returns_dataPiece (h.header_nil (by simp [hs])) hs hr hc
  | bufferMore hs hlt => exact returns_bufferMore hs hlt
  | bufferWhole hs hle => exact returns_bufferWhole (h.header_nil (by simp [hs])) hs hle
  | skipMore hs hlt => exact returns_skipMore hs hlt
  | skipWhole hs hle hcount =>
      exact returns_skipWhole (h.header_nil (by simp [hs])) hs hle hcount
  | skipFlood hs hle hcount =>
      exact returns_skipWhole (h.header_nil (by simp [hs])) hs hle hcount

end FrameDecoder

end Volto
