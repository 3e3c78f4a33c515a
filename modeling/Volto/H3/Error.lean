import Mathlib.Data.Nat.Notation

/-!
# Violations and Their Codes

The error vocabulary of `h3/error.rs`. A `Violation` carries both halves of the answer
RFC 9114 prescribes: the code to send, and whether the rule makes it a connection error
rather than a stream one. A third flag marks the one kind of stream error a 431 is the
right answer to, a field section this server would not hold.
-/

namespace Volto

/-- An HTTP/3 application error code. The registry is open, so any number is one. -/
structure Code where
  value : ℕ
deriving DecidableEq, Repr

namespace Code

/-- `H3_DATAGRAM_ERROR`: a datagram that cannot be parsed. -/
def h3DatagramError : Code := ⟨0x33⟩

/-- `H3_NO_ERROR`: nothing to report. -/
def h3NoError : Code := ⟨0x100⟩

/-- `H3_STREAM_CREATION_ERROR`: a stream the peer may not open. -/
def h3StreamCreationError : Code := ⟨0x103⟩

/-- `H3_CLOSED_CRITICAL_STREAM`: a stream the connection needs has ended. -/
def h3ClosedCriticalStream : Code := ⟨0x104⟩

/-- `H3_FRAME_UNEXPECTED`: a frame where it may not stand. -/
def h3FrameUnexpected : Code := ⟨0x105⟩

/-- `H3_FRAME_ERROR`: a frame that breaks its own layout. -/
def h3FrameError : Code := ⟨0x106⟩

/-- `H3_EXCESSIVE_LOAD`: more than this endpoint will buffer. -/
def h3ExcessiveLoad : Code := ⟨0x107⟩

/-- `H3_ID_ERROR`: an identifier used wrongly. -/
def h3IdError : Code := ⟨0x108⟩

/-- `H3_SETTINGS_ERROR`: a bad SETTINGS payload. -/
def h3SettingsError : Code := ⟨0x109⟩

/-- `H3_MISSING_SETTINGS`: a control stream that starts otherwise. -/
def h3MissingSettings : Code := ⟨0x10a⟩

/-- `H3_REQUEST_REJECTED`: a request that was not looked at. -/
def h3RequestRejected : Code := ⟨0x10b⟩

/-- `H3_REQUEST_CANCELLED`: a request that is no longer wanted. -/
def h3RequestCancelled : Code := ⟨0x10c⟩

/-- `H3_REQUEST_INCOMPLETE`: a request stream that ended too early. -/
def h3RequestIncomplete : Code := ⟨0x10d⟩

/-- `H3_MESSAGE_ERROR`: a malformed message. -/
def h3MessageError : Code := ⟨0x10e⟩

/-- `H3_CONNECT_ERROR`: the connection behind a CONNECT broke. -/
def h3ConnectError : Code := ⟨0x10f⟩

/-- `QPACK_DECOMPRESSION_FAILED`: a field section that cannot be decoded. -/
def qpackDecompressionFailed : Code := ⟨0x200⟩

/-- `QPACK_ENCODER_STREAM_ERROR`: a bad encoder instruction. -/
def qpackEncoderStreamError : Code := ⟨0x201⟩

/-- `QPACK_DECODER_STREAM_ERROR`: a bad decoder instruction. -/
def qpackDecoderStreamError : Code := ⟨0x202⟩

end Code

/-- Something the peer did that the protocol forbids. -/
structure Violation where
  code : Code
  /-- Whether the whole connection has to be closed. -/
  fatal : Bool
  /-- Whether the fault is a field section too large to hold. -/
  fieldSection : Bool
  detail : String
deriving DecidableEq, Repr

namespace Violation

/-- A violation of a rule that only ends the stream it happened on. -/
def stream (code : Code) (detail : String) : Violation :=
  ⟨code, false, false, detail⟩

/-- A violation of a rule stated as a connection error. -/
def connection (code : Code) (detail : String) : Violation :=
  ⟨code, true, false, detail⟩

/-- The `H3_EXCESSIVE_LOAD` stream error a 431 is the right answer to. -/
def fieldSectionTooLarge (detail : String) : Violation :=
  ⟨Code.h3ExcessiveLoad, false, true, detail⟩

/-- Whether the whole connection has to be closed. -/
def isConnectionError (v : Violation) : Bool :=
  v.fatal

/-- The same violation, escalated to end the connection. -/
def intoFatal (v : Violation) : Violation :=
  { v with fatal := true }

/-- Whether a 431 is the right thing to tell the peer about this. -/
def isFieldSectionTooLarge (v : Violation) : Bool :=
  v.fieldSection

end Violation

/-- A number as the source's `:#x` formatting prints it. -/
def hex (n : ℕ) : String :=
  "0x" ++ String.ofList (Nat.toDigits 16 n)

end Volto
