import Volto.Datagram
import Volto.H3.Control
import Volto.H3.FrameReader
import Volto.H3.QpackStreams
import Volto.H3.WireFrame
import Volto.Lib.History

/-!
# The Peer's Unidirectional Streams

`serve_peer` of `h3/connection.rs` takes the peer's unidirectional streams and its datagrams for as
long as the connection lasts. Each stream is a task of its own, `serve_stream`: it reads the type of
the stream, and then serves its control stream, serves one of its two QPACK streams, fails the
connection, or asks for the stream to be stopped. The tasks share the flags of what was seen, and
the first violation of any of them ends the connection.

The steps of the tasks come in any order, and what arrives is cut anywhere. What is judged is put
beside this as it has arrived: a stream by all of its bytes at once, and the streams by whether two
of them are of a type that there is one of.

## Main results

* `Reader.take_spec`: a chunk is judged as the bytes before it and its own.
* `Critical.judge_append`: what was refused stays so.
-/

namespace Volto

open Incremental

namespace PeerStreams

/-- The streams of which the peer may open one each, and which must not end. -/
inductive Critical
  | control
  | qpack (kind : QpackStream)
deriving DecidableEq, Repr

namespace Critical

/-- The type a stream begins with. -/
def streamType : Critical → ℕ
  | control => 0x00
  | qpack .encoder => 0x02
  | qpack .decoder => 0x03

/-- What a second stream of the same type is refused with. -/
def second : Critical → String
  | control => "a second control stream"
  | qpack _ => "a second QPACK stream of the same kind"

/-- The detail of an ending. -/
def detail : Critical → Ending → String
  | control, .finished => "the peer closed its control stream"
  | control, .reset error => s!"the peer reset its control stream: {error}"
  | qpack kind, ending => ending.detail kind

/-- The kind of a stream that is served. -/
def ofType (streamType : ℕ) : Option Critical :=
  if streamType = control.streamType then some control
  else if streamType = (qpack .encoder).streamType then some (qpack .encoder)
  else if streamType = (qpack .decoder).streamType then some (qpack .decoder)
  else none

end Critical

/-- The type of a push stream. -/
def streamPush : ℕ := 0x01

/-- What a push stream from a client is refused with. -/
def pushStream : Violation :=
  Violation.connection Code.h3StreamCreationError "a client opened a push stream"

/-- The stream type at the front of what has been read, once it is whole: its first byte is read,
and then as many more as it declares. -/
def readStreamType (buf : List UInt8) : Option (ℕ × List UInt8) :=
  match buf with
  | [] => none
  | first :: _ =>
      let length := 1 <<< (first.toNat >>> 6)
      if buf.length < length then
        none
      else
        (peekVarint (buf.take length)).map fun (value, _) => (value, buf.drop length)

/-- The reader of a critical stream: the loop of `serve_control`, or that of `serve_qpack`. -/
inductive Reader
  | control (decoder : FrameDecoder) (budget : BufferBudget) (rules : Control)
  | qpack (kind : QpackStream) (progress : QpackProgress)
deriving DecidableEq, Repr

namespace Reader

/-- A reader that has read nothing. -/
def new : Critical → Reader
  | .control => control (FrameDecoder.new .control) BufferBudget.unshared Control.default
  | .qpack kind => qpack kind QpackProgress.default

/-- The critical stream a reader is for. -/
def kind : Reader → Critical
  | control .. => .control
  | qpack kind _ => .qpack kind

/-- Reads a chunk: the violation it ends with or the reader it leaves, and the connection's
flag. -/
def take (r : Reader) (peerDatagrams : Bool) (chunk : List UInt8) :
    Except Violation Reader × Bool :=
  match r with
  | control decoder budget rules =>
      let read := FrameDecoder.pushDrain (decoder, budget) chunk
      -- what was decoded is judged before what comes behind it is decoded
      let judged := feedAll Control.acceptStep (rules, peerDatagrams) read.out
      match judged.error.or (read.error.map Violation.intoFatal) with
      | some violation => (.error violation, judged.state.2)
      | none => (.ok (control read.state.1 read.state.2 judged.state.1), judged.state.2)
  | qpack kind progress => ((progress.takeAll kind chunk).map (qpack kind), peerDatagrams)

/-- The violation an ending is. A FIN inside a frame of the control stream is the reader's before it
is an ending. -/
def finish (r : Reader) (ending : Ending) (closed : Bool) : Option Violation :=
  match r with
  | control decoder _ _ =>
      if ending = .finished ∧ decoder.atFrameBoundary = false then
        some FrameReader.endedMidFrame.intoFatal
      else
        criticalStreamClosed (Critical.control.detail ending) closed
  | qpack kind _ => criticalStreamClosed ((Critical.qpack kind).detail ending) closed

end Reader

/-- The task of a stream. -/
inductive Task
  /-- The type is being read. -/
  | typing (buf : List UInt8)
  | serving (reader : Reader)
  | returned
deriving DecidableEq, Repr

/-- Whether more of a stream may come. -/
inductive Fate
  | going
  /-- It ended, on a connection that was over or was not. -/
  | ended (ending : Ending) (closed : Bool)
  /-- Its type did not come in time. -/
  | elapsed
deriving DecidableEq, Repr

/-- A unidirectional stream of the peer: its reader, and what has arrived on it. -/
structure Stream where
  task : Task
  /-- The code of the STOP_SENDING it was answered with. -/
  stopped : Option Code
  /-- What has arrived of it, for the statements only. -/
  arrived : List UInt8
  fate : Fate
deriving DecidableEq, Repr

/-- A connection, as far as `serve_peer` goes. -/
structure Peer where
  controlSeen : Bool
  encoderSeen : Bool
  decoderSeen : Bool
  /-- Whether the peer takes datagrams. -/
  peerDatagrams : Bool
  /-- Why this endpoint closed the connection, if it did. -/
  localError : Option Violation
  /-- Whether the connection is over. -/
  closed : Bool
  /-- Whether `serve_peer` has not returned, which takes its tasks with it. -/
  serving : Bool
  streams : List Stream
  /-- The datagrams that were read, for the statements only. -/
  datagrams : List (List UInt8)
  /-- What other tasks have failed the connection for, for the statements only. -/
  elsewhere : List Violation
deriving DecidableEq, Repr

/-- What happens on a connection, as far as the peer's unidirectional streams go. -/
inductive Event
  /-- The peer has opened a stream. -/
  | opened
  | chunk (id : ℕ) (bytes : List UInt8)
  | ended (id : ℕ) (ending : Ending)
  /-- The type of a stream did not come in time. -/
  | elapsed (id : ℕ)
  | datagram (bytes : List UInt8)
  /-- Another task fails the connection. -/
  | failed (violation : Violation)
  /-- The peer or the transport has ended the connection. -/
  | lost
  /-- `accept_uni` fails, as it does on a connection that is over. -/
  | returned
deriving DecidableEq, Repr

namespace Peer

/-- A connection on which the peer has opened nothing. -/
def new : Peer :=
  ⟨false, false, false, false, none, false, true, [], [], []⟩

variable (s : Peer)

/-- Whether a stream of a kind was seen. -/
def seen : Critical → Bool
  | .control => s.controlSeen
  | .qpack .encoder => s.encoderSeen
  | .qpack .decoder => s.decoderSeen

/-- Marks a critical stream as seen. -/
def see : Critical → Peer
  | .control => { s with controlSeen := true }
  | .qpack .encoder => { s with encoderSeen := true }
  | .qpack .decoder => { s with decoderSeen := true }

/-- `Handle::fail`: the first violation is kept, and the connection is closed. -/
def fail (violation : Violation) : Peer :=
  { s with localError := some (s.localError.getD violation), closed := true }

/-- Puts a stream in its place. -/
def put (id : ℕ) (stream : Stream) : Peer :=
  { s with streams := s.streams.set id stream }

/-- The task of a stream ends with a violation. -/
def refuse (id : ℕ) (stream : Stream) (violation : Violation) : Peer :=
  (s.put id { stream with task := .returned }).fail violation

/-- A critical stream is read on. -/
def read (id : ℕ) (stream : Stream) (reader : Reader) (chunk : List UInt8) : Peer :=
  let (result, peerDatagrams) := reader.take s.peerDatagrams chunk
  let s := { s with peerDatagrams }
  match result with
  | .ok reader => s.put id { stream with task := .serving reader }
  | .error violation => s.refuse id stream violation

/-- A critical stream begins, unless there is one of its kind. -/
def serve (id : ℕ) (stream : Stream) (kind : Critical) (rest : List UInt8) : Peer :=
  if s.seen kind then
    s.refuse id stream (duplicate kind.second)
  else
    (s.see kind).read id stream (Reader.new kind) rest

/-- A stream whose type is known. -/
def serveTyped (id : ℕ) (stream : Stream) (streamType : ℕ) (rest : List UInt8) : Peer :=
  match Critical.ofType streamType with
  | some kind => s.serve id stream kind rest
  | none =>
      if streamType = streamPush then
        s.refuse id stream pushStream
      else
        s.put id { stream with task := .returned, stopped := some Code.h3StreamCreationError }

/-- A chunk of a stream arrives. -/
def chunk (id : ℕ) (stream : Stream) (bytes : List UInt8) : Peer :=
  match stream.task with
  | .typing buf =>
      match readStreamType (buf ++ bytes) with
      | none => s.put id { stream with task := .typing (buf ++ bytes) }
      | some (streamType, rest) => s.serveTyped id stream streamType rest
  | .serving reader => s.read id stream reader bytes
  | .returned => s.put id stream

/-- A stream ends, which is nothing to the connection unless it is served. -/
def finish (id : ℕ) (stream : Stream) (ending : Ending) : Peer :=
  match stream.task with
  | .serving reader =>
      match reader.finish ending s.closed with
      | some violation => s.refuse id stream violation
      | none => s.put id { stream with task := .returned }
  | .typing _ | .returned => s.put id { stream with task := .returned }

/-- The streams that something can still happen to. -/
def going? (id : ℕ) : Option Stream :=
  if s.serving then s.streams[id]?.filter fun stream => stream.fate = .going else none

/-- What the connection does at an event. -/
def step (s : Peer) : Event → Peer
  | .opened =>
      if s.serving then { s with streams := s.streams ++ [⟨.typing [], none, [], .going⟩] } else s
  | .chunk id bytes =>
      match s.going? id with
      | none => s
      | some stream => s.chunk id { stream with arrived := stream.arrived ++ bytes } bytes
  | .ended id ending =>
      match s.going? id with
      | none => s
      | some stream =>
          s.finish id { stream with fate := .ended ending s.closed } ending
  | .elapsed id =>
      match s.going? id with
      | some ⟨.typing _, _, arrived, _⟩ =>
          s.put id ⟨.returned, some Code.h3StreamCreationError, arrived, .elapsed⟩
      | _ => s
  | .datagram bytes =>
      if s.serving then
        match Datagram.routeDatagram bytes with
        | .fail violation =>
            { s with datagrams := s.datagrams ++ [bytes], serving := false }.fail violation
        | .deliver _ | .countDrop _ => { s with datagrams := s.datagrams ++ [bytes] }
      else
        s
  | .failed violation => { s with elsewhere := s.elsewhere ++ [violation] }.fail violation
  | .lost => { s with closed := true }
  | .returned => if s.closed then { s with serving := false } else s

/-- The connection after a list of events. -/
def run (events : List Event) : Peer :=
  History.run step new events

end Peer

/-! ### What is judged -/

/-- The reader of the control stream over bytes that come at once. -/
def controlRead (bytes : List UInt8) : Outcome (FrameDecoder × BufferBudget) Item Violation :=
  FrameDecoder.run .control [bytes]

namespace Critical

/-- What the bytes of a stream are refused for. -/
def judge : Critical → List UInt8 → Option Violation
  | control, bytes =>
      (Control.acceptAll (controlRead bytes).out).error.or
        ((controlRead bytes).error.map Violation.intoFatal)
  | qpack kind, bytes =>
      match judgeQpack kind bytes with
      | .error violation => some violation
      | .ok _ => none

/-- What its ending is refused for. -/
def judgeEnd : Critical → List UInt8 → Ending → Bool → Option Violation
  | control, bytes, ending, closed =>
      if ending = .finished ∧ (controlRead bytes).state.1.atFrameBoundary = false then
        some FrameReader.endedMidFrame.intoFatal
      else
        criticalStreamClosed (control.detail ending) closed
  | qpack kind, _, ending, closed => criticalStreamClosed ((qpack kind).detail ending) closed

/-- A stream that says that the peer takes datagrams. -/
def saysDatagrams : Critical → List UInt8 → Bool
  | control, bytes => (Control.acceptAll (controlRead bytes).out).state.2
  | qpack _, _ => false

end Critical

/-- The bytes behind the type of a stream that is served. -/
def Stream.Carries (stream : Stream) (kind : Critical) (bytes : List UInt8) : Prop :=
  takeVarint stream.arrived = some (kind.streamType, bytes)

/-- What a stream is refused for, of itself. -/
inductive Stream.Refused (stream : Stream) : Violation → Prop
  | push {rest : List UInt8} (h : takeVarint stream.arrived = some (streamPush, rest)) :
      Refused stream pushStream
  | bytes {kind : Critical} {bytes : List UInt8} {violation : Violation}
      (h : stream.Carries kind bytes) (hv : kind.judge bytes = some violation) :
      Refused stream violation
  | ending {kind : Critical} {bytes : List UInt8} {violation : Violation} {ending : Ending}
      {closed : Bool} (h : stream.Carries kind bytes) (hfate : stream.fate = .ended ending closed)
      (hv : kind.judgeEnd bytes ending closed = some violation) : Refused stream violation

/-- What the connection is failed for: what one stream is refused for, a second stream of a kind
that there is one of, a datagram that names no session, or what is found elsewhere. -/
inductive Peer.Fault (s : Peer) : Violation → Prop
  | stream {stream : Stream} {violation : Violation} (h : stream ∈ s.streams)
      (hv : stream.Refused violation) : Fault s violation
  | second {id id' : ℕ} {stream stream' : Stream} {kind : Critical} {bytes bytes' : List UInt8}
      (h : s.streams[id]? = some stream) (h' : s.streams[id']? = some stream') (hne : id ≠ id')
      (hkind : stream.Carries kind bytes) (hkind' : stream'.Carries kind bytes') :
      Fault s (duplicate kind.second)
  | datagram {datagram : List UInt8} {violation : Violation} (h : datagram ∈ s.datagrams)
      (hv : Datagram.routeDatagram datagram = .fail violation) : Fault s violation
  | elsewhere {violation : Violation} (h : violation ∈ s.elsewhere) : Fault s violation

/-! ### The type of a stream -/

/-- The stream type is read as any other varint. -/
theorem readStreamType_eq (buf : List UInt8) : readStreamType buf = takeVarint buf := by
  cases buf with
  | nil => rfl
  | cons first buf =>
      obtain ⟨more, hmore⟩ : ∃ more, declaredLen first = more + 1 := by
        rcases declaredLen_cases first with h | h | h | h <;> exact ⟨_, h⟩
      have hread : readStreamType (first :: buf) =
          if buf.length + 1 < declaredLen first then none
          else (peekVarint ((first :: buf).take (declaredLen first))).map fun (value, _) =>
            (value, (first :: buf).drop (declaredLen first)) := rfl
      rw [hread, takeVarint, peekVarint_cons]
      split_ifs with hshort
      · rfl
      · have hlen : (buf.take more).length = more := List.length_take_of_le (by omega)
        rw [hmore, List.take_succ_cons, peekVarint_cons, hlen, hmore, if_neg (Nat.lt_irrefl _),
          Nat.add_sub_cancel, List.take_take, Nat.min_self]
        rfl

/-! ### One stream -/

/-- DATA is refused, whatever it carries. -/
theorem acceptStep_data (s : Control × Bool) :
    ∃ violation, ∀ bytes, Control.acceptStep s (.data bytes) = ⟨[], s, some violation⟩ :=
  ⟨_, fun _ => rfl⟩

/-- The items of a stream are judged as the events they stand for, one at a time. -/
theorem feedAll_acceptStep {items : List Item} {events : List Volto.Event}
    (h : Groups Item.Renders items events) (s : Control × Bool) :
    feedAll Control.acceptStep s items =
      feedAll Control.acceptStep s (events.map WireFrame.itemOf) := by
  obtain ⟨groups, hgroups, rfl⟩ := h
  induction hgroups generalizing s with
  | nil => rfl
  | @cons item group items groups hitem _ ih =>
      rw [List.flatten_cons, List.map_append, feedAll_append, feedAll_cons]
      have hone (item : Item) : feedAll Control.acceptStep s [item] = Control.acceptStep s item :=
        Outcome.andThen_idle _
      obtain (_ | ⟨byte, bytes⟩) | frame | kind := item
      · obtain rfl : group = [.emptyData] := hitem
        rw [List.map_singleton, hone]
        exact congrArg _ (funext ih)
      · obtain ⟨last, rfl⟩ := hitem
        obtain ⟨violation, hdata⟩ := acceptStep_data s
        obtain ⟨last', events, hevents⟩ :
            ∃ last' events, dataEvents (byte :: bytes) last = .byte byte last' :: events := by
          cases bytes with
          | nil => exact ⟨_, _, rfl⟩
          | cons byte' bytes => exact ⟨_, _, rfl⟩
        rw [hevents, List.map_cons, feedAll_cons, WireFrame.itemOf, hdata, hdata]
        rfl
      · obtain rfl : group = [.frame frame] := hitem
        rw [List.map_singleton, hone]
        exact congrArg _ (funext ih)
      · obtain rfl : group = [.skipped kind] := hitem
        rw [List.map_singleton, hone]
        exact congrArg _ (funext ih)

/-- What the control stream's reader makes of bytes, a byte at a time. -/
abbrev fed (bytes : List UInt8) : FrameMachine.Step :=
  feedAll FrameMachine.feed (FrameMachine.new .control) bytes

/-- The rules over what has been decoded. -/
abbrev ruled (events : List Volto.Event) : Outcome (Control × Bool) Unit Violation :=
  Control.acceptAll (events.map WireFrame.itemOf)

/-- The control stream is read frame by frame, under the control rules. -/
theorem controlRead_eq (bytes : List UInt8) :
    Control.acceptAll (controlRead bytes).out = ruled (fed bytes).out ∧
      (controlRead bytes).error = (fed bytes).error ∧
      ((controlRead bytes).state.1.atFrameBoundary = true ↔
        (fed bytes).state.position = .header []) := by
  have h := FrameDecoder.run_refines .control [bytes]
  rw [List.flatten_singleton] at h
  exact ⟨feedAll_acceptStep h.out _, h.error, h.state.atFrameBoundary_iff⟩

/-- More of a stream is decoded after what was. -/
theorem fed_append {bytes : List UInt8} (h : (fed bytes).error = none) (more : List UInt8) :
    (fed (bytes ++ more)).out = (fed bytes).out ++
        (feedAll FrameMachine.feed (fed bytes).state more).out ∧
      (fed (bytes ++ more)).state = (feedAll FrameMachine.feed (fed bytes).state more).state ∧
      (fed (bytes ++ more)).error = (feedAll FrameMachine.feed (fed bytes).state more).error := by
  rw [fed, feedAll_append, Outcome.andThen, h]
  exact ⟨rfl, rfl, rfl⟩

/-- The control rules go on from where they stood. -/
theorem ruled_append {events : List Volto.Event} (h : (ruled events).error = none)
    (more : List Volto.Event) :
    (ruled (events ++ more)).state =
        (feedAll Control.acceptStep (ruled events).state (more.map WireFrame.itemOf)).state ∧
      (ruled (events ++ more)).error =
        (feedAll Control.acceptStep (ruled events).state (more.map WireFrame.itemOf)).error := by
  rw [ruled, List.map_append, Control.acceptAll, feedAll_append, Outcome.andThen,
    ← Control.acceptAll, h]
  exact ⟨rfl, rfl⟩

/-- A reader that has read these bytes, with the connection's flag. -/
def Reader.Has (peerDatagrams : Bool) (bytes : List UInt8) : Reader → Prop
  | .control decoder budget rules =>
      FrameDecoder.Represents (decoder, budget) (fed bytes).state ∧ (fed bytes).error = none ∧
        (ruled (fed bytes).out).state = (rules, peerDatagrams) ∧
        (ruled (fed bytes).out).error = none
  | .qpack kind progress => judgeQpack kind bytes = .ok progress

/-- A fresh reader has read nothing. -/
theorem Reader.has_new (kind : Critical) (peerDatagrams : Bool)
    (h : kind = .control → peerDatagrams = false) : (Reader.new kind).Has peerDatagrams [] := by
  cases kind with
  | control =>
      rw [h rfl]
      exact ⟨FrameDecoder.represents_new .control, rfl, rfl, rfl⟩
  | qpack kind => rfl

/-- What a reader has read is not refused. -/
theorem Reader.Has.judge {r : Reader} {peerDatagrams : Bool} {bytes : List UInt8}
    (h : r.Has peerDatagrams bytes) : r.kind.judge bytes = none := by
  cases r with
  | control decoder budget rules =>
      obtain ⟨-, hfed, -, hruled⟩ := h
      obtain ⟨hout, herror, -⟩ := controlRead_eq bytes
      rw [Reader.kind, Critical.judge, hout, herror, hfed, hruled]
      rfl
  | qpack kind progress =>
      have hjudge : judgeQpack kind bytes = .ok progress := h
      rw [Reader.kind, Critical.judge, hjudge]

/-- Nor is its ending, but for what the task finds. -/
theorem Reader.Has.finish {r : Reader} {peerDatagrams : Bool} {bytes : List UInt8}
    (h : r.Has peerDatagrams bytes) (ending : Ending) (closed : Bool) :
    r.finish ending closed = r.kind.judgeEnd bytes ending closed := by
  cases r with
  | control decoder budget rules =>
      obtain ⟨hrep, -, -, -⟩ := h
      obtain ⟨-, -, hboundary⟩ := controlRead_eq bytes
      have heq : decoder.atFrameBoundary = (controlRead bytes).state.1.atFrameBoundary :=
        Bool.eq_iff_iff.mpr (hrep.atFrameBoundary_iff.trans hboundary.symm)
      rw [Reader.finish, Reader.kind, Critical.judgeEnd, heq]
  | qpack kind progress => rfl

/-- **A chunk is judged as the bytes before it and its own.** -/
theorem Reader.take_spec {r : Reader} {peerDatagrams : Bool} {bytes : List UInt8}
    (h : r.Has peerDatagrams bytes) (chunk : List UInt8) :
    (∀ r', (r.take peerDatagrams chunk).1 = .ok r' →
      r'.kind = r.kind ∧ r'.Has (r.take peerDatagrams chunk).2 (bytes ++ chunk)) ∧
    (∀ violation, (r.take peerDatagrams chunk).1 = .error violation →
      r.kind.judge (bytes ++ chunk) = some violation) ∧
    (r.take peerDatagrams chunk).2 =
      if r.kind = .control then r.kind.saysDatagrams (bytes ++ chunk) else peerDatagrams := by
  cases r with
  | control decoder budget rules =>
      obtain ⟨hrep, hfed, hstate, hruled⟩ := h
      have href := FrameDecoder.pushDrain_refines _ _ chunk hrep
      obtain ⟨hfedOut, hfedState, hfedError⟩ := fed_append hfed chunk
      obtain ⟨hruledState, hruledError⟩ :=
        ruled_append hruled (feedAll FrameMachine.feed (fed bytes).state chunk).out
      rw [← hfedOut, hstate, ← feedAll_acceptStep href.out] at hruledState hruledError
      obtain ⟨hout, herror, -⟩ := controlRead_eq (bytes ++ chunk)
      have hjudge : Critical.control.judge (bytes ++ chunk) =
          (feedAll Control.acceptStep (rules, peerDatagrams)
            (FrameDecoder.pushDrain (decoder, budget) chunk).out).error.or
          ((FrameDecoder.pushDrain (decoder, budget) chunk).error.map Violation.intoFatal) := by
        rw [Critical.judge, hout, herror, hruledError, hfedError, href.error]
      have hsays : Critical.control.saysDatagrams (bytes ++ chunk) =
          (feedAll Control.acceptStep (rules, peerDatagrams)
            (FrameDecoder.pushDrain (decoder, budget) chunk).out).state.2 := by
        rw [Critical.saysDatagrams, hout, hruledState]
      have hrep' := href.state
      rw [← hfedState] at hrep'
      have hnone : ∀ judged failed : Option Violation,
          judged.or (failed.map Violation.intoFatal) = none → judged = none ∧ failed = none := by
        rintro (_ | _) (_ | _) h <;> simp at h ⊢
      rw [Reader.kind, if_pos rfl, hjudge, hsays, Reader.take]
      split
      · rename_i violation hviolation
        exact ⟨by rintro r' ⟨⟩, fun violation' h => by cases h; exact hviolation, rfl⟩
      · rename_i hok
        obtain ⟨hjudged, hread⟩ := hnone _ _ hok
        refine ⟨?_, by rintro violation ⟨⟩, rfl⟩
        rintro r' ⟨⟩
        refine ⟨rfl, hrep', ?_, hruledState, hruledError.trans hjudged⟩
        rw [hfedError, ← href.error, hread]
  | qpack kind progress =>
      have hread : judgeQpack kind bytes = .ok progress := h
      have hjudge : judgeQpack kind (bytes ++ chunk) = progress.takeAll kind chunk := by
        rw [judgeQpack, QpackProgress.takeAll_append, ← judgeQpack, hread]
        rfl
      rw [Reader.kind, Reader.take, if_neg (by simp)]
      simp only [Critical.judge, hjudge, and_true]
      cases htake : progress.takeAll kind chunk with
      | error violation =>
          exact ⟨by rintro r' ⟨⟩, fun violation' h => by cases h; rfl⟩
      | ok progress' =>
          refine ⟨?_, by rintro violation ⟨⟩⟩
          rintro r' ⟨⟩
          exact ⟨rfl, hjudge.trans htake⟩

/-- What a reader has read does not tell on the flag, unless it is the control stream's. -/
theorem Reader.Has.flag {r : Reader} {peerDatagrams : Bool} {bytes : List UInt8}
    (h : r.Has peerDatagrams bytes) :
    (r.kind = .control → r.kind.saysDatagrams bytes = peerDatagrams) ∧
      ∀ peerDatagrams', r.kind ≠ .control → r.Has peerDatagrams' bytes := by
  cases r with
  | control decoder budget rules =>
      obtain ⟨-, -, hstate, -⟩ := h
      refine ⟨fun _ => ?_, fun _ hne => absurd rfl hne⟩
      rw [Reader.kind, Critical.saysDatagrams, (controlRead_eq bytes).1, hstate]
  | qpack kind progress => exact ⟨by rintro ⟨⟩, fun _ _ => h⟩

/-! ### More of a stream -/

/-- Nothing is read behind an error. -/
theorem fed_append_of_error {bytes : List UInt8} {violation : Violation}
    (h : (fed bytes).error = some violation) (more : List UInt8) :
    fed (bytes ++ more) = fed bytes := by
  rw [fed, feedAll_append, Outcome.andThen, h]

/-- Nothing is ruled on behind an error. -/
theorem ruled_append_error {events : List Volto.Event} {violation : Violation}
    (h : (ruled events).error = some violation) (more : List Volto.Event) :
    (ruled (events ++ more)).error = some violation := by
  rw [ruled, List.map_append, Control.acceptAll, feedAll_append, Outcome.andThen,
    ← Control.acceptAll, h]
  exact h

/-- The peer goes on taking datagrams. -/
theorem acceptAll_append_datagrams {items : List Item}
    (h : (Control.acceptAll items).state.2 = true) (more : List Item) :
    (Control.acceptAll (items ++ more)).state.2 = true := by
  cases items with
  | nil => cases h
  | cons item items =>
      rcases Control.settings_or_other item with ⟨settings, rfl⟩ | hother
      · rw [Control.acceptAll_settings,
          (Control.recorded_settings.feedAll settings.datagrams _).1] at h
        rw [List.cons_append, Control.acceptAll_settings,
          (Control.recorded_settings.feedAll settings.datagrams _).1, h]
      · rw [Control.acceptAll_other hother] at h
        cases h

namespace Critical

/-- What was refused stays so. -/
theorem judge_append {kind : Critical} {bytes : List UInt8} {violation : Violation}
    (h : kind.judge bytes = some violation) (more : List UInt8) :
    kind.judge (bytes ++ more) = some violation := by
  cases kind with
  | control =>
      obtain ⟨hout, herror, -⟩ := controlRead_eq bytes
      obtain ⟨hout', herror', -⟩ := controlRead_eq (bytes ++ more)
      rw [judge, hout, herror] at h
      rw [judge, hout', herror']
      cases hfed : (fed bytes).error with
      | some violation' => rwa [fed_append_of_error hfed]
      | none =>
          rw [hfed, Option.map_none, Option.or_none] at h
          rw [(fed_append hfed more).1, ruled_append_error h]
          rfl
  | qpack kind =>
      rw [judge] at h
      rw [judge, judgeQpack, QpackProgress.takeAll_append, ← judgeQpack]
      cases hjudge : judgeQpack kind bytes with
      | error violation' =>
          rw [hjudge] at h
          exact h
      | ok progress =>
          rw [hjudge] at h
          cases h

/-- A peer that has announced datagrams does not take it back. -/
theorem saysDatagrams_append {kind : Critical} {bytes : List UInt8}
    (h : kind.saysDatagrams bytes = true) (more : List UInt8) :
    kind.saysDatagrams (bytes ++ more) = true := by
  cases kind with
  | control =>
      rw [saysDatagrams, (controlRead_eq _).1] at h ⊢
      cases hfed : (fed bytes).error with
      | some violation => rwa [fed_append_of_error hfed]
      | none =>
          rw [(fed_append hfed more).1, ruled, List.map_append]
          exact acceptAll_append_datagrams h _
  | qpack kind => cases h

/-- A critical stream is known by its type. -/
theorem ofType_streamType (kind : Critical) : ofType kind.streamType = some kind := by
  rcases kind with _ | (_ | _) <;> rfl

/-- What is known by a type has that type. -/
theorem streamType_of_ofType {streamType : ℕ} {kind : Critical}
    (h : ofType streamType = some kind) : streamType = kind.streamType := by
  unfold ofType at h
  split_ifs at h with hcontrol hencoder hdecoder
  · cases h
    exact hcontrol
  · cases h
    exact hencoder
  · cases h
    exact hdecoder

/-- The three critical streams have three types. -/
theorem streamType_injective {kind kind' : Critical} (h : kind.streamType = kind'.streamType) :
    kind = kind' :=
  Option.some.inj (by rw [← ofType_streamType, h, ofType_streamType])

end Critical

end PeerStreams

end Volto
