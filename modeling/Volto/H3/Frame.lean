import Volto.Varint
import Volto.H3.Error

/-!
# The HTTP/3 Frame Layer

The frame decoder of `h3/frame.rs`, transition for transition. Every HTTP/3 stream
carries the same shape, a type varint, a length varint and that many payload bytes, and
`FrameDecoder` reads it from chunks that align with nothing: DATA payload is handed out
in the chunks it arrived in, an unknown frame is discarded by its length, and every other
frame is buffered whole, under `maxBufferedFrame` for one frame and under the connection's
`BufferBudget` for all of them together.

`next_item` is a loop around a `match` on the decoder's state. `FrameDecoder.iterate` is
one pass through that `match` and says whether the loop goes round again; `nextItem` is
the loop. One pass touches the shared budget at most once, so a pass is also the unit in
which the decoders of one connection interleave.

The decoder's own budget pointer is the explicit `BufferBudget` argument, the fixed array
of header bytes is the list of the bytes that have arrived in it
(`takeFrameHeader_length_lt` bounds it), and lengths are natural numbers: a varint is below
`2 ^ 62` and a buffered length at most `maxBufferedFrame`.
-/

namespace Volto

/-! ### Frame types -/

namespace FrameType

/-- DATA. -/
def data : ℕ := 0x00

/-- HEADERS. -/
def headers : ℕ := 0x01

/-- CANCEL_PUSH. -/
def cancelPush : ℕ := 0x03

/-- SETTINGS. -/
def settings : ℕ := 0x04

/-- PUSH_PROMISE. -/
def pushPromise : ℕ := 0x05

/-- GOAWAY. -/
def goaway : ℕ := 0x07

/-- MAX_PUSH_ID. -/
def maxPushId : ℕ := 0x0d

end FrameType

/-- The frame types this server parses, and so has to buffer whole. -/
inductive BufferedKind
  | headers
  | settings
  | goaway
  | cancelPush
  | maxPushId
  | pushPromise
deriving DecidableEq, Repr

namespace BufferedKind

/-- The buffered frame `kind` names, or `none` if that type is not one. -/
def fromType (kind : ℕ) : Option BufferedKind :=
  if kind = FrameType.headers then some headers
  else if kind = FrameType.settings then some settings
  else if kind = FrameType.goaway then some goaway
  else if kind = FrameType.cancelPush then some cancelPush
  else if kind = FrameType.maxPushId then some maxPushId
  else if kind = FrameType.pushPromise then some pushPromise
  else none

/-- The type code this frame carries on the wire. -/
def frameType : BufferedKind → ℕ
  | headers => FrameType.headers
  | settings => FrameType.settings
  | goaway => FrameType.goaway
  | cancelPush => FrameType.cancelPush
  | maxPushId => FrameType.maxPushId
  | pushPromise => FrameType.pushPromise

/-- A buffered kind is known by its type. -/
@[simp] theorem fromType_frameType (kind : BufferedKind) :
    fromType kind.frameType = some kind := by
  cases kind <;> rfl

/-- What is known by a type has that type. -/
theorem frameType_of_fromType {kind : ℕ} {buffered : BufferedKind}
    (h : fromType kind = some buffered) : kind = buffered.frameType := by
  rw [fromType] at h
  split_ifs at h <;> cases h <;> assumption

end BufferedKind

/-- Frame types reserved because HTTP/2 used them. -/
def reservedHttp2Types : List ℕ := [0x02, 0x06, 0x08, 0x09]

/-- `SETTINGS_H3_DATAGRAM`. -/
def settingH3Datagram : ℕ := 0x33

/-- Setting identifiers reserved because HTTP/2 used them. -/
def reservedHttp2Settings : List ℕ := [0x00, 0x02, 0x03, 0x04, 0x05]

/-- The advertised bound on a field section. -/
def maxFieldSectionSize : ℕ := 64 * 1024

/-- Largest payload this reader will buffer for one non-DATA frame. -/
def maxBufferedFrame : ℕ := maxFieldSectionSize

/-- What one connection may hold in payload buffers at once. -/
def headersBufferBudget : ℕ := 1024 * 1024

/-- Longest frame header there can be: a type and a length, both varints. -/
def maxFrameHeader : ℕ := 2 * varintMaxLen

/-- How many unknown frames one request stream may make this server skip. -/
def maxSkippedFrames : ℕ := 4096

/-- Why a tunnel is closed when a frame that is not DATA arrives on it. -/
def nonDataFrameOnATunnel : String :=
  "a frame other than DATA once the CONNECT method had completed"

/-- The largest `usize` of the supported targets. -/
def usizeMax : ℕ := 2 ^ 64 - 1

/-- The largest `u32`. -/
def u32Max : ℕ := 2 ^ 32 - 1

/-! ### The buffering budget -/

/-- What one connection holds in payload buffers, as a counter every request stream on it
shares. -/
structure BufferBudget where
  /-- Bytes announced by the frames currently being buffered. -/
  held : ℕ
deriving DecidableEq, Repr

namespace BufferBudget

/-- A budget nothing has been charged to. -/
def unshared : BufferBudget := ⟨0⟩

/-- Takes `bytes` from the budget, or reports that the connection is past it. A refused
charge returns no counter: the one it was asked of stays in force. -/
def charge (budget : BufferBudget) (bytes : ℕ) : Except Violation BufferBudget :=
  let wanted := min (budget.held + bytes) usizeMax
  if wanted ≤ headersBufferBudget then
    .ok ⟨wanted⟩
  else
    .error (Violation.fieldSectionTooLarge
      (s!"buffering another {bytes} bytes would put this connection past the " ++
        s!"{headersBufferBudget} it may hold in unfinished frames, of which {budget.held} are " ++
        "already held"))

/-- Gives `bytes` back to the budget, saturating at zero. -/
def release (budget : BufferBudget) (bytes : ℕ) : BufferBudget :=
  if 0 < bytes then ⟨budget.held - bytes⟩ else budget

end BufferBudget

/-! ### Items and frames -/

/-- The peer's SETTINGS, reduced to what this server acts on. -/
structure Settings where
  /-- `SETTINGS_H3_DATAGRAM = 1`. -/
  datagrams : Bool
deriving DecidableEq, Repr

/-- No setting was received. -/
def Settings.default : Settings := ⟨false⟩

/-- A fully received non-DATA frame. -/
inductive Frame
  | headers (block : List UInt8)
  | settings (settings : Settings)
  | goaway (identifier : ℕ)
  | cancelPush (pushId : ℕ)
  | maxPushId (pushId : ℕ)
  | pushPromise
deriving DecidableEq, Repr

/-- What the decoder produces: a piece of a DATA payload, a complete frame of any other
known type, or the end of a frame that was skipped. -/
inductive Item
  | data (bytes : List UInt8)
  | frame (frame : Frame)
  | skipped (kind : ℕ)
deriving DecidableEq, Repr

/-- Which of this server's streams a decoder is reading. -/
inductive StreamKind
  | control
  | request
  | tunnel
deriving DecidableEq, Repr

/-- Where the decoder is in the frame sequence. -/
inductive FrameDecoder.State
  | header
  | data (remaining : ℕ)
  | buffering (kind : BufferedKind) (remaining : ℕ)
  | skipping (kind : ℕ) (remaining : ℕ)
deriving DecidableEq, Repr

namespace Frame

open FrameDecoder (State)

/-- Why frame type `kind` may not appear on `stream` at all, or `none` if it may. -/
def misplaced (stream : StreamKind) (kind : ℕ) : Option String :=
  match stream with
  | .control => none
  | .request =>
      if kind = FrameType.settings then some "a SETTINGS frame on a request stream"
      else if kind = FrameType.cancelPush then some "a CANCEL_PUSH frame on a request stream"
      else if kind = FrameType.maxPushId then some "a MAX_PUSH_ID frame on a request stream"
      else if kind = FrameType.pushPromise then
        some "a PUSH_PROMISE frame, which only a server may send"
      else if kind = FrameType.goaway then some "a GOAWAY frame on a request stream"
      else none
  | .tunnel =>
      if kind = FrameType.data then none
      else if (BufferedKind.fromType kind).isSome then some nonDataFrameOnATunnel
      else none

/-- Decides what to do with a frame that has just been announced on `stream`: the type is
judged before the length. -/
def begin (stream : StreamKind) (kind length : ℕ) : Except Violation State :=
  if reservedHttp2Types.contains kind then
    .error (Violation.connection Code.h3FrameUnexpected
      s!"frame type {hex kind} is reserved for HTTP/2")
  else
    match misplaced stream kind with
    | some detail => .error (Violation.connection Code.h3FrameUnexpected detail)
    | none =>
        if kind = FrameType.data then
          .ok (.data length)
        else
          match BufferedKind.fromType kind with
          | none => .ok (.skipping kind length)
          | some buffered =>
              if maxBufferedFrame < length then
                .error (Violation.fieldSectionTooLarge
                  s!"a {length}-byte frame is past what this server buffers")
              else
                .ok (.buffering buffered length)

/-- How much of a `remaining`-byte frame the chunk in hand settles, and what is left of
the frame after it. -/
def takeFrom (remaining chunkLen : ℕ) : ℕ × ℕ :=
  (min remaining chunkLen, remaining - min remaining chunkLen)

/-- Reads a payload that is exactly one varint. -/
def singleVarint (kind : ℕ) (payload : List UInt8) : Except Violation ℕ :=
  match peekVarint payload with
  | some (value, used) =>
      if used = payload.length then .ok value
      else .error (Violation.connection Code.h3FrameError
        s!"frame type {hex kind} does not carry exactly one varint")
  | none => .error (Violation.connection Code.h3FrameError
      s!"frame type {hex kind} does not carry exactly one varint")

/-- A SETTINGS payload whose identifiers or values break the rules. -/
def settingsError (detail : String) : Violation :=
  Violation.connection Code.h3SettingsError detail

/-- A SETTINGS payload that ends in the middle of a pair. -/
def truncatedSettings : Violation :=
  Violation.connection Code.h3FrameError "the SETTINGS payload ends mid-pair"

/-- Reads a setting whose value is restricted to 0 or 1. -/
def boolean (identifier value : ℕ) : Except Violation Bool :=
  match value with
  | 0 => .ok false
  | 1 => .ok true
  | other => .error (settingsError s!"setting {hex identifier} must be 0 or 1, not {other}")

/-- What one pair does to the settings read so far. A value of
`SETTINGS_ENABLE_CONNECT_PROTOCOL` above 1 is logged and ignored, like every identifier
this server does not act on. -/
def applySetting (settings : Settings) (identifier value : ℕ) : Except Violation Settings :=
  if identifier = settingH3Datagram then
    (boolean identifier value).map fun datagrams => { settings with datagrams := datagrams }
  else
    .ok settings

/-- The loop of `parseSettings`: the settings and the identifiers read so far, and the
payload still to read. -/
def parseSettingsLoop (settings : Settings) (seen : List ℕ) (payload : List UInt8) :
    Except Violation Settings :=
  if payload = [] then
    .ok settings
  else
    match _h : peekVarint payload with
    | none => .error truncatedSettings
    | some (identifier, used) =>
        match peekVarint (payload.drop used) with
        | none => .error truncatedSettings
        | some (value, used') =>
            if reservedHttp2Settings.contains identifier then
              .error (settingsError s!"setting {hex identifier} is reserved for HTTP/2")
            else if seen.contains identifier then
              .error (settingsError s!"setting {hex identifier} occurs more than once")
            else
              match applySetting settings identifier value with
              | .error violation => .error violation
              | .ok settings =>
                  parseSettingsLoop settings (identifier :: seen)
                    ((payload.drop used).drop used')
termination_by payload.length
decreasing_by
  have := peekVarint_bounds _h
  simp only [List.length_drop]
  omega

/-- Parses a SETTINGS payload. -/
def parseSettings (payload : List UInt8) : Except Violation Settings :=
  parseSettingsLoop Settings.default [] payload

/-- A payload that starts with a whole pair is read by that pair. -/
theorem parseSettingsLoop_of_peek {settings : Settings} {seen : List ℕ} {payload : List UInt8}
    {identifier used value used' : ℕ} (hidentifier : peekVarint payload = some (identifier, used))
    (hvalue : peekVarint (payload.drop used) = some (value, used')) :
    parseSettingsLoop settings seen payload =
      if reservedHttp2Settings.contains identifier then
        .error (settingsError s!"setting {hex identifier} is reserved for HTTP/2")
      else if seen.contains identifier then
        .error (settingsError s!"setting {hex identifier} occurs more than once")
      else
        match applySetting settings identifier value with
        | .error violation => .error violation
        | .ok settings =>
            parseSettingsLoop settings (identifier :: seen) ((payload.drop used).drop used') := by
  have hne : payload ≠ [] := by
    rintro rfl
    cases hidentifier
  rw [parseSettingsLoop, if_neg hne]
  split
  · rename_i h
    cases hidentifier.symm.trans h
  · rename_i h
    cases hidentifier.symm.trans h
    simp only [hvalue]

/-- Parses a buffered frame payload. -/
def parse (kind : BufferedKind) (payload : List UInt8) : Except Violation Frame :=
  match kind with
  | .headers => .ok (.headers payload)
  | .settings => (parseSettings payload).map .settings
  | .goaway => (singleVarint kind.frameType payload).map .goaway
  | .cancelPush => (singleVarint kind.frameType payload).map .cancelPush
  | .maxPushId => (singleVarint kind.frameType payload).map .maxPushId
  | .pushPromise => .ok .pushPromise

/-- Writes a frame header: type and payload length. -/
def putHeader (kind length : ℕ) : Option (List UInt8) := do
  let kindBytes ← putVarint kind
  let lengthBytes ← putVarint length
  pure (kindBytes ++ lengthBytes)

/-- The type and length at the front of the header bytes that have arrived, if both are
there. -/
def peekHeader (header : List UInt8) : Option (ℕ × ℕ) := do
  let (kind, used) ← peekVarint header
  let (length, _) ← peekVarint (header.drop used)
  pure (kind, length)

/-- **Everything `begin` can answer**, with the checks behind each answer in the order they
are made: a type that may not appear here, DATA, an unknown type, and a buffered type that
is or is not within the per-frame bound. -/
theorem begin_cases (stream : StreamKind) (kind length : ℕ) :
    ((reservedHttp2Types.contains kind = true ∨ (misplaced stream kind).isSome) ∧
      ∃ detail, begin stream kind length =
        .error (Violation.connection Code.h3FrameUnexpected detail)) ∨
    (reservedHttp2Types.contains kind = false ∧ misplaced stream kind = none ∧
      ((kind = FrameType.data ∧ begin stream kind length = .ok (.data length)) ∨
      (kind ≠ FrameType.data ∧ BufferedKind.fromType kind = none ∧
        begin stream kind length = .ok (.skipping kind length)) ∨
      ∃ buffered : BufferedKind, kind = buffered.frameType ∧
        ((maxBufferedFrame < length ∧ ∃ detail, begin stream kind length =
            .error (Violation.fieldSectionTooLarge detail)) ∨
        (length ≤ maxBufferedFrame ∧
          begin stream kind length = .ok (.buffering buffered length))))) := by
  cases hres : reservedHttp2Types.contains kind with
  | true => exact Or.inl ⟨Or.inl rfl, _, by rw [begin, if_pos hres]⟩
  | false =>
      have hres' : ¬reservedHttp2Types.contains kind = true := by
        rw [hres]
        exact Bool.false_ne_true
      cases hmis : misplaced stream kind with
      | some detail =>
          exact Or.inl ⟨Or.inr rfl, detail, by rw [begin, if_neg hres', hmis]⟩
      | none =>
          refine Or.inr ⟨rfl, rfl, ?_⟩
          by_cases hdata : kind = FrameType.data
          · exact Or.inl ⟨hdata, by rw [begin, if_neg hres', hmis]; exact if_pos hdata⟩
          · right
            cases hbuf : BufferedKind.fromType kind with
            | none =>
                refine Or.inl ⟨hdata, rfl, ?_⟩
                rw [begin, if_neg hres', hmis]
                simp only [if_neg hdata, hbuf]
            | some buffered =>
                refine Or.inr ⟨buffered, BufferedKind.frameType_of_fromType hbuf, ?_⟩
                rw [begin, if_neg hres', hmis]
                simp only [if_neg hdata, hbuf]
                by_cases hlen : maxBufferedFrame < length
                · exact Or.inl ⟨hlen, _, if_pos hlen⟩
                · exact Or.inr ⟨by omega, if_neg hlen⟩

/-- A frame that is buffered may appear on its stream and is within the per-frame bound. -/
theorem begin_eq_buffering {stream : StreamKind} {kind length remaining : ℕ}
    {buffered : BufferedKind}
    (hb : begin stream kind length = .ok (.buffering buffered remaining)) :
    kind = buffered.frameType ∧ remaining = length ∧ length ≤ maxBufferedFrame ∧
      reservedHttp2Types.contains kind = false ∧ misplaced stream kind = none := by
  rcases begin_cases stream kind length with
    ⟨-, detail, h⟩ | ⟨hres, hmis, ⟨-, h⟩ | ⟨-, -, h⟩ |
      ⟨buffered', hkind, ⟨-, detail, h⟩ | ⟨hle, h⟩⟩⟩
  · rw [h] at hb
    cases hb
  · rw [h] at hb
    cases hb
  · rw [h] at hb
    cases hb
  · rw [h] at hb
    cases hb
  · rw [h] at hb
    cases hb
    exact ⟨hkind, rfl, hle, hres, hmis⟩

end Frame

/-! ### The decoder -/

/-- An incremental frame decoder, fed chunks as they arrive. -/
structure FrameDecoder where
  /-- The chunk last pushed, with the consumed prefix removed. -/
  chunk : List UInt8
  /-- Frame header bytes carried over from earlier chunks. -/
  header : List UInt8
  /-- Payload of the frame currently being buffered. -/
  payload : List UInt8
  /-- Bytes charged to the budget for the frame being buffered, if any. -/
  charged : ℕ
  /-- Which stream's rules this decoder applies to a frame type. -/
  stream : StreamKind
  /-- Unknown frames skipped so far while this was a request stream. -/
  skipped : ℕ
  state : FrameDecoder.State
deriving DecidableEq, Repr

/-- What one pass through the decoder's loop does: go round again, or return. -/
inductive FrameDecoder.Iteration
  | again (decoder : FrameDecoder) (budget : BufferBudget)
  | done (result : Except Violation (Option Item)) (decoder : FrameDecoder)
      (budget : BufferBudget)

namespace FrameDecoder

/-- A decoder positioned at the start of a `stream`'s frame sequence. -/
def new (stream : StreamKind) : FrameDecoder where
  chunk := []
  header := []
  payload := []
  charged := 0
  stream := stream
  skipped := 0
  state := .header

/-- Hands the decoder the next chunk of stream. -/
def push (d : FrameDecoder) (chunk : List UInt8) : FrameDecoder :=
  { d with chunk := chunk }

/-- Narrows the frame rules to the ones a tunnel has. -/
def connectCompleted (d : FrameDecoder) : FrameDecoder :=
  { d with stream := .tunnel }

/-- Whether the stream could end here without truncating a frame. -/
def atFrameBoundary (d : FrameDecoder) : Bool :=
  d.state = .header && d.header.length = 0

/-- The loop of `takeFrameHeader`: move bytes from the chunk to the header until a type
and a length are there. Returns them, the header bytes left and the chunk left. -/
def takeFrameHeaderLoop (header : List UInt8) :
    List UInt8 → Option (ℕ × ℕ) × List UInt8 × List UInt8
  | [] =>
      match Frame.peekHeader header with
      | some r => (some r, [], [])
      | none => (none, header, [])
  | byte :: chunk =>
      match Frame.peekHeader header with
      | some r => (some r, [], byte :: chunk)
      | none => takeFrameHeaderLoop (header ++ [byte]) chunk

/-- Reads a frame type and length, or `none` if not all of it has arrived. -/
def takeFrameHeader (d : FrameDecoder) : Option (ℕ × ℕ) × FrameDecoder :=
  let (result, header, chunk) := takeFrameHeaderLoop d.header d.chunk
  (result, { d with header := header, chunk := chunk })

/-- Counts one skipped frame, reporting a stream error once a request stream is past the
limit. -/
def countSkip (d : FrameDecoder) : Option Violation × FrameDecoder :=
  if d.stream = .request then
    let skipped := min (d.skipped + 1) u32Max
    (if maxSkippedFrames < skipped then
        some (Violation.stream Code.h3ExcessiveLoad
          (s!"more than {maxSkippedFrames} reserved or unknown frames were skipped on this " ++
            "request stream before a request arrived"))
      else
        none,
      { d with skipped := skipped })
  else
    (none, d)

/-- Gives back whatever this decoder had charged to the connection's budget. -/
def release (d : FrameDecoder) (budget : BufferBudget) : FrameDecoder × BufferBudget :=
  ({ d with charged := 0 }, budget.release d.charged)

/-- Dropping a decoder returns the budget a half-received frame was holding. -/
def drop (d : FrameDecoder) (budget : BufferBudget) : BufferBudget :=
  (d.release budget).2

/-- One pass through the loop of `next_item`. -/
def iterate (d : FrameDecoder) (budget : BufferBudget) : Iteration :=
  match d.state with
  | .header =>
      match d.takeFrameHeader with
      | (none, d) => .done (.ok none) d budget
      | (some (kind, length), d) =>
          match Frame.begin d.stream kind length with
          | .error violation => .done (.error violation) d budget
          | .ok (.buffering kind remaining) =>
              -- Charged on the announcement, and the state entered only once the charge is in.
              match budget.charge remaining with
              | .error violation => .done (.error violation) d budget
              | .ok budget =>
                  .again { d with charged := remaining, state := .buffering kind remaining } budget
          | .ok next => .again { d with state := next } budget
  | .data remaining =>
      if remaining = 0 then
        .done (.ok (some (.data []))) { d with state := .header } budget
      else
        let (take, left) := Frame.takeFrom remaining d.chunk.length
        if take = 0 then
          .done (.ok none) d budget
        else
          .done (.ok (some (.data (d.chunk.take take))))
            { d with
              chunk := d.chunk.drop take
              state := if left = 0 then .header else .data left }
            budget
  | .buffering kind remaining =>
      let take := min remaining d.chunk.length
      let payload := d.payload ++ d.chunk.take take
      let chunk := d.chunk.drop take
      if take < remaining then
        .done (.ok none)
          { d with
            payload := payload
            chunk := chunk
            state := .buffering kind (remaining - take) }
          budget
      else
        -- Released before the parse, which may fail: the frame is held no longer either way.
        let (d, budget) :=
          { d with payload := [], chunk := chunk, state := .header }.release budget
        .done ((Frame.parse kind payload).map fun frame => some (.frame frame)) d budget
  | .skipping kind remaining =>
      let (take, left) := Frame.takeFrom remaining d.chunk.length
      let d := { d with chunk := d.chunk.drop take }
      if left = 0 then
        match { d with state := .header }.countSkip with
        | (some violation, d) => .done (.error violation) d budget
        | (none, d) => .done (.ok (some (.skipped kind))) d budget
      else
        .done (.ok none) { d with state := .skipping kind left } budget

end FrameDecoder

end Volto
