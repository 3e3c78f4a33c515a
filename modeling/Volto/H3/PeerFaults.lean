import Volto.H3.PeerStreams
import Volto.Lib.Slots

/-!
# What the Peer's Streams Are Judged By

The tasks of `serve_peer` against what has arrived. Over every order of their steps the connection
is failed exactly when some stream, or some two of them, or a datagram are at fault, and none of
that depends on the order or on the cuts.

While the connection was not failed every task has read what has arrived of its stream. Afterwards
the tasks may go on, and what failed the connection is at fault whatever else arrives.

## Main results

* `Peer.Fault.later`: what the connection is failed for stays what it is failed for.
* `Inv.replace`: a step of one stream.
* `Inv.step`: what every step preserves.
* `peer_streams_judged`: when the connection fails, and what for.
-/

namespace Volto

open Incremental

namespace PeerStreams

variable {stream stream' : Stream} {kind : Critical} {bytes : List UInt8} {violation : Violation}

/-- A stream carries one thing. -/
theorem Stream.Carries.unique {kind' : Critical} {bytes' : List UInt8}
    (h : stream.Carries kind bytes) (h' : stream.Carries kind' bytes') :
    kind = kind' ∧ bytes = bytes' := by
  obtain ⟨hkind, hbytes⟩ := Prod.mk.inj (Option.some.inj (h.symm.trans h'))
  exact ⟨Critical.streamType_injective hkind, hbytes⟩

/-- A stream at a later time: nothing comes behind its end. -/
def Stream.Later (stream stream' : Stream) : Prop :=
  (stream.fate = .going ∧ ∃ more, stream'.arrived = stream.arrived ++ more) ∨
    (stream'.arrived = stream.arrived ∧ stream'.fate = stream.fate)

/-- A type that was read is read the same from more bytes. -/
theorem Stream.Later.takeVarint (h : stream.Later stream') {streamType : ℕ}
    (htake : Volto.takeVarint stream.arrived = some (streamType, bytes)) :
    ∃ more, Volto.takeVarint stream'.arrived = some (streamType, bytes ++ more) := by
  rcases h with ⟨-, more, hmore⟩ | ⟨hsame, -⟩
  · exact ⟨more, hmore ▸ takeVarint_append htake more⟩
  · exact ⟨[], by rw [hsame, htake, List.append_nil]⟩

/-- **What a stream was refused for, it is refused for.** -/
theorem Stream.Refused.later (h : stream.Refused violation) (hlater : stream.Later stream') :
    stream'.Refused violation := by
  cases h with
  | push htake =>
      obtain ⟨more, htake'⟩ := hlater.takeVarint htake
      exact .push htake'
  | bytes hcarries hv =>
      obtain ⟨more, hcarries'⟩ := hlater.takeVarint hcarries
      exact .bytes hcarries' (Critical.judge_append hv more)
  | ending hcarries hfate hv =>
      rcases hlater with ⟨hgoing, -⟩ | ⟨hsame, hfate'⟩
      · rw [hfate] at hgoing
        cases hgoing
      · rw [Stream.Carries, ← hsame] at hcarries
        exact .ending hcarries (hfate'.trans hfate) hv

/-- A connection at a later time. -/
structure Peer.Later (s s' : Peer) : Prop where
  streams : ∀ (id : ℕ) (stream : Stream), s.streams[id]? = some stream →
    ∃ stream', s'.streams[id]? = some stream' ∧ stream.Later stream'
  datagrams : ∀ datagram ∈ s.datagrams, datagram ∈ s'.datagrams
  elsewhere : ∀ violation ∈ s.elsewhere, violation ∈ s'.elsewhere

/-- And what the connection is failed for stays what it is failed for. -/
theorem Peer.Fault.later {s s' : Peer} (h : s.Fault violation) (hlater : s.Later s') :
    s'.Fault violation := by
  cases h with
  | stream hmem hv =>
      obtain ⟨id, hid⟩ := List.mem_iff_getElem?.mp hmem
      obtain ⟨stream', hid', hstream⟩ := hlater.streams id _ hid
      exact .stream (List.mem_of_getElem? hid') (hv.later hstream)
  | second hid hid' hne hkind hkind' =>
      obtain ⟨later, hlater₁, hstream⟩ := hlater.streams _ _ hid
      obtain ⟨later', hlater₂, hstream'⟩ := hlater.streams _ _ hid'
      obtain ⟨more, hmore⟩ := hstream.takeVarint hkind
      obtain ⟨more', hmore'⟩ := hstream'.takeVarint hkind'
      exact .second hlater₁ hlater₂ hne hmore hmore'
  | datagram hmem hv => exact .datagram (hlater.datagrams _ hmem) hv
  | elsewhere hmem => exact .elsewhere (hlater.elsewhere _ hmem)

/-! ### The invariant -/

/-- A stream of a type that nothing is known of. -/
def Stream.Unknown (stream : Stream) : Prop :=
  ∃ streamType rest, takeVarint stream.arrived = some (streamType, rest) ∧
    Critical.ofType streamType = none ∧ streamType ≠ streamPush

/-- **What holds of a stream**: its task has read what has arrived, and it is asked to stop when
its type is unknown or did not come. -/
structure Stream.Sound (stream : Stream) (peerDatagrams : Bool) : Prop where
  typing : ∀ buf, stream.task = .typing buf →
    stream.arrived = buf ∧ takeVarint buf = none ∧ stream.fate = .going
  serving : ∀ reader, stream.task = .serving reader →
    stream.fate = .going ∧ ∃ bytes, stream.Carries reader.kind bytes ∧
      reader.Has peerDatagrams bytes
  returned : stream.task = .returned → stream.fate = .going →
    ∃ streamType rest, takeVarint stream.arrived = some (streamType, rest)
  stopped : ∀ code, stream.stopped = some code ↔
    code = Code.h3StreamCreationError ∧ (stream.Unknown ∨ stream.fate = .elapsed)

/-- **What holds of a stream while the connection was not failed.** -/
structure Stream.Fine (stream : Stream) (peerDatagrams : Bool) : Prop where
  fine : ∀ violation, ¬stream.Refused violation
  left : stream.task = .returned → stream.fate = .going → stream.Unknown
  told : ∀ bytes, stream.Carries .control bytes → Critical.control.saysDatagrams bytes = true →
    peerDatagrams = true

/-- No other stream is served as one of a kind. -/
def Peer.Apart (s : Peer) (id : ℕ) (kind : Critical) : Prop :=
  ∀ id' (stream : Stream) reader, id' ≠ id → s.streams[id']? = some stream →
    stream.task = .serving reader → reader.kind ≠ kind

/-- **What holds of the connection.** -/
structure Inv (s : Peer) : Prop where
  sound : ∀ (id : ℕ) (stream : Stream), s.streams[id]? = some stream → stream.Sound s.peerDatagrams
  apart : ∀ (id : ℕ) (stream : Stream) reader, s.streams[id]? = some stream →
    stream.task = .serving reader → s.Apart id reader.kind
  seen : ∀ kind, s.seen kind = true ↔
    ∃ id : ℕ, ∃ stream : Stream, ∃ bytes, s.streams[id]? = some stream ∧ stream.Carries kind bytes
  datagrams : s.peerDatagrams = true → ∃ id : ℕ, ∃ stream : Stream, ∃ bytes,
    s.streams[id]? = some stream ∧ stream.Carries .control bytes ∧
      Critical.control.saysDatagrams bytes = true
  faulty : ∀ violation, s.localError = some violation → s.Fault violation
  fine : s.localError = none → (∀ violation, ¬s.Fault violation) ∧
    ∀ (id : ℕ) (stream : Stream), s.streams[id]? = some stream → stream.Fine s.peerDatagrams

variable {s s' : Peer} {id : ℕ}

/-- A stream stays sound when datagrams are announced elsewhere. -/
theorem Stream.Sound.flag {peerDatagrams peerDatagrams' : Bool} (h : stream.Sound peerDatagrams)
    (hflag : peerDatagrams' = peerDatagrams ∨
      ∀ reader, stream.task = .serving reader → reader.kind ≠ .control) :
    stream.Sound peerDatagrams' where
  typing := h.typing
  serving reader htask := by
    obtain ⟨hfate, bytes, hcarries, hhas⟩ := h.serving reader htask
    refine ⟨hfate, bytes, hcarries, ?_⟩
    rcases hflag with rfl | hkind
    · exact hhas
    · exact hhas.flag.2 _ (hkind reader htask)
  returned := h.returned
  stopped := h.stopped

/-- One stream is replaced by what has become of it, and nothing else happens. -/
structure Replaces (s s' : Peer) (id : ℕ) (stream stream' : Stream) : Prop where
  here : s.streams[id]? = some stream
  streams : s'.streams = s.streams.set id stream'
  datagrams : s'.datagrams = s.datagrams
  elsewhere : s'.elsewhere = s.elsewhere
  later : stream.Later stream'
  seen : ∀ kind, s'.seen kind = true ↔
    s.seen kind = true ∨ ∃ bytes, stream'.Carries kind bytes

/-- The streams after one of them was replaced. -/
theorem Replaces.getElem? (h : Replaces s s' id stream stream') {id' : ℕ} {other : Stream} :
    s'.streams[id']? = some other ↔
      (id' = id ∧ other = stream') ∨ (id' ≠ id ∧ s.streams[id']? = some other) := by
  rw [h.streams, Slots.getElem?_set h.here]

/-- A replaced stream takes the connection on. -/
theorem Replaces.peer (h : Replaces s s' id stream stream') : s.Later s' where
  streams id' other hid' := by
    by_cases heq : id' = id
    · subst heq
      obtain rfl := Option.some.inj (h.here.symm.trans hid')
      exact ⟨stream', h.getElem?.mpr (.inl ⟨rfl, rfl⟩), h.later⟩
    · exact ⟨other, h.getElem?.mpr (.inr ⟨heq, hid'⟩), .inr ⟨rfl, rfl⟩⟩
  datagrams _ hmem := h.datagrams ▸ hmem
  elsewhere _ hmem := h.elsewhere ▸ hmem

/-- What the flag may become with the new stream. -/
def Flagged (s s' : Peer) (id : ℕ) (stream' : Stream) : Prop :=
  s'.peerDatagrams = s.peerDatagrams ∨
    (s.Apart id .control ∧ (s.peerDatagrams = true → s'.peerDatagrams = true) ∧
      (s'.peerDatagrams = true → ∃ bytes, stream'.Carries .control bytes ∧
        Critical.control.saysDatagrams bytes = true))

/-- What may become of the connection with the new stream. -/
def Judged (s s' : Peer) (stream stream' : Stream) : Prop :=
  (s'.localError = s.localError ∧ (s.localError = none → stream'.Fine s'.peerDatagrams ∧
    ∀ kind bytes, stream'.Carries kind bytes →
      (∃ bytes, stream.Carries kind bytes) ∨ s.seen kind = false)) ∨
  ∃ violation, s'.localError = some (s.localError.getD violation) ∧ s'.Fault violation

/-- Whichever of two faults was recorded first, there is that fault. -/
theorem Inv.faulty_getD (h : Inv s) (hlater : s.Later s') (hv : s'.Fault violation)
    {violation' : Violation} (hviolation' : s.localError.getD violation = violation') :
    s'.Fault violation' := by
  cases herror : s.localError with
  | none =>
      rw [herror] at hviolation'
      exact hviolation' ▸ hv
  | some violation'' =>
      rw [herror] at hviolation'
      exact hviolation' ▸ (h.faulty _ herror).later hlater

/-- **A step of one stream.** -/
theorem Inv.replace (h : Inv s) (hr : Replaces s s' id stream stream')
    (hsound : stream'.Sound s'.peerDatagrams)
    (hapart : ∀ reader, stream'.task = .serving reader → s.Apart id reader.kind)
    (hflag : Flagged s s' id stream') (hjudged : Judged s s' stream stream') : Inv s' where
  sound id' other hid' := by
    rcases hr.getElem?.mp hid' with ⟨rfl, rfl⟩ | ⟨hne, hid'⟩
    · exact hsound
    · refine (h.sound id' other hid').flag ?_
      rcases hflag with hsame | ⟨hcontrol, -, -⟩
      · exact .inl hsame
      · exact .inr fun reader => hcontrol id' other reader hne hid'
  apart id' other reader hid' htask := by
    intro id'' other' reader' hne' hid'' htask'
    rcases hr.getElem?.mp hid' with ⟨rfl, rfl⟩ | ⟨hne, hid'⟩ <;>
      rcases hr.getElem?.mp hid'' with ⟨rfl, rfl⟩ | ⟨hne'', hid''⟩
    · exact absurd rfl hne'
    · exact hapart reader htask _ _ _ hne'' hid'' htask'
    · exact (hapart reader' htask' _ _ _ hne hid' htask).symm
    · exact h.apart _ _ _ hid' htask _ _ _ hne' hid'' htask'
  seen kind := by
    rw [hr.seen, h.seen]
    constructor
    · rintro (⟨id', other, bytes, hid', hcarries⟩ | ⟨bytes, hcarries⟩)
      · obtain ⟨other', hid'', hother⟩ := hr.peer.streams id' other hid'
        obtain ⟨more, hmore⟩ := hother.takeVarint hcarries
        exact ⟨id', other', _, hid'', hmore⟩
      · exact ⟨id, stream', bytes, hr.getElem?.mpr (.inl ⟨rfl, rfl⟩), hcarries⟩
    · rintro ⟨id', other, bytes, hid', hcarries⟩
      rcases hr.getElem?.mp hid' with ⟨rfl, rfl⟩ | ⟨hne, hid'⟩
      · exact .inr ⟨bytes, hcarries⟩
      · exact .inl ⟨id', other, bytes, hid', hcarries⟩
  datagrams hdatagrams := by
    have hkept : s.peerDatagrams = true → ∃ id : ℕ, ∃ stream : Stream, ∃ bytes,
        s'.streams[id]? = some stream ∧ stream.Carries .control bytes ∧
          Critical.control.saysDatagrams bytes = true := by
      intro hbefore
      obtain ⟨id', other, bytes, hid', hcarries, htold⟩ := h.datagrams hbefore
      obtain ⟨other', hid'', hother⟩ := hr.peer.streams id' other hid'
      obtain ⟨more, hmore⟩ := hother.takeVarint hcarries
      exact ⟨id', other', _, hid'', hmore, Critical.saysDatagrams_append htold more⟩
    rcases hflag with hsame | ⟨-, -, htold⟩
    · exact hkept (hsame ▸ hdatagrams)
    · obtain ⟨bytes, hcarries, hbytes⟩ := htold hdatagrams
      exact ⟨id, stream', bytes, hr.getElem?.mpr (.inl ⟨rfl, rfl⟩), hcarries, hbytes⟩
  faulty violation hviolation := by
    rcases hjudged with ⟨hsame, -⟩ | ⟨violation', hlocal, hfault⟩
    · exact (h.faulty _ (hsame ▸ hviolation)).later hr.peer
    · exact h.faulty_getD hr.peer hfault (Option.some.inj (hlocal.symm.trans hviolation))
  fine hnone := by
    rcases hjudged with ⟨hsame, hfine⟩ | ⟨violation', hlocal, hfault⟩
    · have hbefore := hsame ▸ hnone
      obtain ⟨hstream, hkinds⟩ := hfine hbefore
      obtain ⟨hfaults, hothers⟩ := h.fine hbefore
      -- the new stream's kind is no other's
      have hsecond : ∀ (id' : ℕ) (other : Stream) kind bytes bytes', id' ≠ id →
          s.streams[id']? = some other → stream'.Carries kind bytes →
          ¬other.Carries kind bytes' := by
        intro id' other kind bytes bytes' hne hid' hcarries hcarries'
        rcases hkinds kind bytes hcarries with ⟨bytes'', hcarries''⟩ | hseen
        · exact hfaults _ (.second hid' hr.here hne hcarries' hcarries'')
        · rw [(h.seen kind).mpr ⟨id', other, bytes', hid', hcarries'⟩] at hseen
          cases hseen
      refine ⟨fun violation hfault => ?_, fun id' other hid' => ?_⟩
      · cases hfault with
        | stream hmem hv =>
            obtain ⟨id', hid'⟩ := List.mem_iff_getElem?.mp hmem
            rcases hr.getElem?.mp hid' with ⟨rfl, rfl⟩ | ⟨hne, hid'⟩
            · exact hstream.fine _ hv
            · exact hfaults _ (.stream (List.mem_of_getElem? hid') hv)
        | second hid' hid'' hne hkind hkind' =>
            rcases hr.getElem?.mp hid' with ⟨rfl, rfl⟩ | ⟨hne', hid'⟩ <;>
              rcases hr.getElem?.mp hid'' with ⟨rfl, rfl⟩ | ⟨hne'', hid''⟩
            · exact hne rfl
            · exact hsecond _ _ _ _ _ hne'' hid'' hkind hkind'
            · exact hsecond _ _ _ _ _ hne' hid' hkind' hkind
            · exact hfaults _ (.second hid' hid'' hne hkind hkind')
        | datagram hmem hv => exact hfaults _ (.datagram (hr.datagrams ▸ hmem) hv)
        | elsewhere hmem => exact hfaults _ (.elsewhere (hr.elsewhere ▸ hmem))
      · rcases hr.getElem?.mp hid' with ⟨rfl, rfl⟩ | ⟨hne, hid'⟩
        · exact hstream
        · have hother := hothers id' other hid'
          refine ⟨hother.fine, hother.left, fun bytes hcarries htold => ?_⟩
          have hbefore := hother.told bytes hcarries htold
          rcases hflag with hsame | ⟨-, hkeeps, -⟩
          · exact hsame.trans hbefore
          · exact hkeeps hbefore
    · rw [hlocal] at hnone
      cases hnone

/-- **A step beside the streams.** -/
theorem Inv.beside (h : Inv s) (hstreams : s'.streams = s.streams)
    (hseen : ∀ kind, s'.seen kind = s.seen kind) (hflag : s'.peerDatagrams = s.peerDatagrams)
    (hlater : s.Later s')
    (herror : (s'.localError = s.localError ∧ ∀ violation, s'.Fault violation → s.Fault violation) ∨
      ∃ violation, s'.localError = some (s.localError.getD violation) ∧ s'.Fault violation) :
    Inv s' where
  sound id stream hid := by
    rw [hflag]
    exact h.sound id stream (hstreams ▸ hid)
  apart id stream reader hid htask id' stream' reader' hne hid' htask' :=
    h.apart id stream reader (hstreams ▸ hid) htask id' stream' reader' hne (hstreams ▸ hid') htask'
  seen kind := by rw [hseen, h.seen, hstreams]
  datagrams hdatagrams := by
    rw [hstreams]
    exact h.datagrams (hflag ▸ hdatagrams)
  faulty violation hviolation := by
    rcases herror with ⟨hsame, -⟩ | ⟨violation', hlocal, hfault⟩
    · exact (h.faulty _ (hsame ▸ hviolation)).later hlater
    · exact h.faulty_getD hlater hfault (Option.some.inj (hlocal.symm.trans hviolation))
  fine hnone := by
    rcases herror with ⟨hsame, hfaults⟩ | ⟨violation', hlocal, hfault⟩
    · obtain ⟨hfine, hothers⟩ := h.fine (hsame ▸ hnone)
      rw [hstreams, hflag]
      exact ⟨fun violation hfault => hfine _ (hfaults _ hfault), hothers⟩
    · rw [hlocal] at hnone
      cases hnone

/-! ### The tasks -/

/-- A stream that is served is neither a push stream nor unknown. -/
theorem Stream.Carries.ofType (h : stream.Carries kind bytes) {streamType : ℕ} {rest : List UInt8}
    (htake : takeVarint stream.arrived = some (streamType, rest)) :
    Critical.ofType streamType = some kind ∧ streamType ≠ streamPush := by
  obtain ⟨rfl, -⟩ := Prod.mk.inj (Option.some.inj (h.symm.trans htake))
  refine ⟨Critical.ofType_streamType kind, ?_⟩
  rcases kind with _ | (_ | _) <;> simp [Critical.streamType, streamPush]

/-- A stream of a critical type is not unknown. -/
theorem Stream.Carries.not_unknown (h : stream.Carries kind bytes) : ¬stream.Unknown := by
  rintro ⟨streamType, rest, htake, hnone, -⟩
  rw [(h.ofType htake).1] at hnone
  cases hnone

/-- A stream of an unknown type is not refused. -/
theorem Stream.Unknown.not_refused (h : stream.Unknown) : ¬stream.Refused violation := by
  intro hrefused
  cases hrefused with
  | push htake =>
      obtain ⟨streamType, rest, htake', -, hne⟩ := h
      exact hne (Prod.mk.inj (Option.some.inj (htake'.symm.trans htake))).1
  | bytes hcarries => exact hcarries.not_unknown h
  | ending hcarries => exact hcarries.not_unknown h

/-- A stream whose type has not come is nothing yet. -/
theorem Stream.not_refused_of_none (h : takeVarint stream.arrived = none) :
    (¬stream.Unknown) ∧ (∀ kind bytes, ¬stream.Carries kind bytes) ∧
      ∀ violation, ¬stream.Refused violation := by
  have hcarries : ∀ kind bytes, ¬stream.Carries kind bytes := by
    intro kind bytes hcarries
    rw [Stream.Carries, h] at hcarries
    cases hcarries
  refine ⟨?_, hcarries, fun violation hrefused => ?_⟩
  · rintro ⟨streamType, rest, htake, -⟩
    rw [h] at htake
    cases htake
  · cases hrefused with
    | push htake =>
        rw [h] at htake
        cases htake
    | bytes hcarries' => exact hcarries _ _ hcarries'
    | ending hcarries' => exact hcarries _ _ hcarries'

/-- A stream that is not told to stop. -/
theorem Stream.stopped_none (hstopped : stream.stopped = none) (hunknown : ¬stream.Unknown)
    (hfate : stream.fate ≠ .elapsed) (code : Code) : stream.stopped = some code ↔
      code = Code.h3StreamCreationError ∧ (stream.Unknown ∨ stream.fate = .elapsed) := by
  rw [hstopped]
  refine iff_of_false (by rintro ⟨⟩) ?_
  rintro ⟨-, h | h⟩
  · exact hunknown h
  · exact hfate h

/-- Only streams of unknown types are stopped while they go on. -/
theorem Stream.Sound.not_stopped {peerDatagrams : Bool} (h : stream.Sound peerDatagrams)
    (hunknown : ¬stream.Unknown) (hfate : stream.fate = .going) : stream.stopped = none := by
  cases hstopped : stream.stopped with
  | none => rfl
  | some code =>
      rcases ((h.stopped code).mp hstopped).2 with hunknown' | hfate'
      · exact absurd hunknown' hunknown
      · rw [hfate] at hfate'
        cases hfate'

/-- The connection once a stream of a kind was seen. -/
structure Sees (s t : Peer) (kind : Critical) : Prop where
  streams : t.streams = s.streams
  peerDatagrams : t.peerDatagrams = s.peerDatagrams
  localError : t.localError = s.localError
  datagrams : t.datagrams = s.datagrams
  elsewhere : t.elsewhere = s.elsewhere
  seen : ∀ kind', t.seen kind' = true ↔ s.seen kind' = true ∨ kind' = kind

/-- A stream seen before is seen again without a change. -/
theorem sees_self (h : s.seen kind = true) : Sees s s kind where
  streams := rfl
  peerDatagrams := rfl
  localError := rfl
  datagrams := rfl
  elsewhere := rfl
  seen _ := ⟨.inl, fun hseen => hseen.elim id fun heq => heq ▸ h⟩

/-- Marking a stream as seen is all that marking does. -/
theorem sees_see (s : Peer) (kind : Critical) : Sees s (s.see kind) kind := by
  rcases kind with _ | (_ | _) <;>
    exact ⟨rfl, rfl, rfl, rfl, rfl, by rintro (_ | (_ | _)) <;> simp [Peer.seen, Peer.see]⟩

/-- **A critical stream is read on.** -/
theorem Inv.read (h : Inv s) (hid : s.streams[id]? = some stream) (hgoing : stream.fate = .going)
    {more : List UInt8} (harrived : stream'.arrived = stream.arrived ++ more)
    (hfate : stream'.fate = .going) (hstopped : stream'.stopped = none) {reader : Reader}
    {bytes chunk : List UInt8} (hcarries : stream'.Carries reader.kind (bytes ++ chunk))
    (hhas : reader.Has s.peerDatagrams bytes) (hapart : s.Apart id reader.kind)
    (hfirst : (∃ bytes, stream.Carries reader.kind bytes) ∨ s.seen reader.kind = false) {t : Peer}
    (ht : Sees s t reader.kind) : Inv (t.read id stream' reader chunk) := by
  obtain ⟨hok, herror, hflag⟩ := Reader.take_spec hhas chunk
  have hlater : ∀ task, stream.Later { stream' with task := task } :=
    fun task => .inl ⟨hgoing, more, harrived⟩
  have hseen : ∀ kind, t.seen kind = true ↔
      s.seen kind = true ∨ ∃ bytes, stream'.Carries kind bytes := by
    intro kind
    rw [ht.seen]
    refine or_congr_right ⟨?_, ?_⟩
    · rintro rfl
      exact ⟨_, hcarries⟩
    · rintro ⟨bytes', hcarries'⟩
      exact (hcarries'.unique hcarries).1
  have hunknown := hcarries.not_unknown
  rw [Peer.read, ht.peerDatagrams]
  generalize reader.take s.peerDatagrams chunk = taken at hok herror hflag ⊢
  obtain ⟨result, peerDatagrams⟩ := taken
  simp only at hok herror hflag ⊢
  have hflagged : ∀ (s' : Peer) (task : Task), s'.peerDatagrams = peerDatagrams →
      Flagged s s' id { stream' with task := task } := by
    intro s' task hs'
    by_cases hkind : reader.kind = .control
    · rw [if_pos hkind] at hflag
      refine .inr ⟨hkind ▸ hapart, fun hbefore => ?_, fun hafter => ?_⟩
      · rw [hs', hflag]
        exact Critical.saysDatagrams_append ((hhas.flag.1 hkind).trans hbefore) chunk
      · refine ⟨_, hkind ▸ hcarries, ?_⟩
        rw [← hkind, ← hflag, ← hs', hafter]
    · rw [if_neg hkind] at hflag
      exact .inl (hs'.trans hflag)
  cases result with
  | ok reader' =>
      obtain ⟨hkind, hhas'⟩ := hok reader' rfl
      refine h.replace ⟨hid, ?_, ht.datagrams, ht.elsewhere, hlater (.serving reader'), hseen⟩
        ?_ ?_ (hflagged _ _ rfl) ?_
      · show t.streams.set id _ = _
        rw [ht.streams]
      · refine ⟨by rintro buf ⟨⟩, ?_, by rintro ⟨⟩,
          Stream.stopped_none hstopped hunknown (by rw [hfate]; rintro ⟨⟩)⟩
        rintro reader'' ⟨⟩
        exact ⟨hfate, _, hkind ▸ hcarries, hhas'⟩
      · rintro reader'' ⟨⟩
        exact hkind ▸ hapart
      · refine .inl ⟨ht.localError, fun _ => ⟨⟨fun violation hrefused => ?_, by rintro ⟨⟩,
          fun bytes' hcarries' htold => ?_⟩, fun kind' bytes' hcarries' => ?_⟩⟩
        · cases hrefused with
          | push htake => exact (hcarries.ofType htake).2 rfl
          | bytes hcarries' hv =>
              obtain ⟨rfl, rfl⟩ := hcarries'.unique hcarries
              rw [← hkind, hhas'.judge] at hv
              cases hv
          | ending hcarries' hfate' hv =>
              rw [hfate] at hfate'
              cases hfate'
        · obtain ⟨hcontrol, rfl⟩ := hcarries'.unique hcarries
          rw [if_pos hcontrol.symm, ← hcontrol] at hflag
          exact hflag.trans htold
        · obtain ⟨rfl, -⟩ := hcarries'.unique hcarries
          exact hfirst
  | error violation =>
      have hr : Replaces s ({ t with peerDatagrams := peerDatagrams }.refuse id stream' violation)
          id stream { stream' with task := .returned } := by
        refine ⟨hid, ?_, ht.datagrams, ht.elsewhere, hlater .returned, hseen⟩
        show t.streams.set id _ = _
        rw [ht.streams]
      refine h.replace hr ?_ (by rintro reader' ⟨⟩) (hflagged _ _ rfl) (.inr ⟨violation, ?_, ?_⟩)
      · exact ⟨by rintro buf ⟨⟩, by rintro reader' ⟨⟩, fun _ _ => ⟨_, _, hcarries⟩,
          Stream.stopped_none hstopped hunknown (by rw [hfate]; rintro ⟨⟩)⟩
      · show some (t.localError.getD violation) = _
        rw [ht.localError]
      · refine .stream (List.mem_of_getElem? (hr.getElem?.mpr (.inl ⟨rfl, rfl⟩))) ?_
        exact .bytes hcarries (herror violation rfl)

/-- Where a stream carries only what it did, the kinds that were seen are the same. -/
theorem Inv.seen_same (h : Inv s) (hid : s.streams[id]? = some stream)
    (hsame : ∀ kind bytes, stream'.Carries kind bytes → ∃ bytes, stream.Carries kind bytes)
    (kind : Critical) : s.seen kind = true ↔
      s.seen kind = true ∨ ∃ bytes, stream'.Carries kind bytes := by
  refine ⟨.inl, ?_⟩
  rintro (hseen | ⟨bytes, hcarries⟩)
  · exact hseen
  · obtain ⟨bytes', hcarries'⟩ := hsame kind bytes hcarries
    exact (h.seen kind).mpr ⟨id, stream, bytes', hid, hcarries'⟩

/-- **A task ends with a violation.** -/
theorem Inv.refuse (h : Inv s) (hid : s.streams[id]? = some stream)
    (hlater : stream.Later { stream' with task := .returned })
    (hseen : ∀ kind, s.seen kind = true ↔ s.seen kind = true ∨ ∃ bytes, stream'.Carries kind bytes)
    (hsound : ({ stream' with task := .returned } : Stream).Sound s.peerDatagrams)
    (hfault : (s.refuse id stream' violation).Fault violation) :
    Inv (s.refuse id stream' violation) :=
  h.replace ⟨hid, rfl, rfl, rfl, hlater, hseen⟩ hsound (by rintro reader ⟨⟩) (.inl rfl)
    (.inr ⟨violation, rfl, hfault⟩)

/-- **A task waits, or ends with none.** -/
theorem Inv.put (h : Inv s) (hid : s.streams[id]? = some stream) (hlater : stream.Later stream')
    (hsame : ∀ kind bytes, stream'.Carries kind bytes → ∃ bytes, stream.Carries kind bytes)
    (hsound : stream'.Sound s.peerDatagrams) (htask : ∀ reader, stream'.task ≠ .serving reader)
    (hfine : s.localError = none → stream'.Fine s.peerDatagrams) : Inv (s.put id stream') :=
  h.replace ⟨hid, rfl, rfl, rfl, hlater, h.seen_same hid hsame⟩ hsound
    (fun reader hreader => absurd hreader (htask reader)) (.inl rfl)
    (.inl ⟨rfl, fun hnone => ⟨hfine hnone, fun kind bytes hcarries =>
      .inl (hsame kind bytes hcarries)⟩⟩)

/-- The stream that was put is there. -/
theorem Peer.mem_refuse (hid : s.streams[id]? = some stream) :
    { stream' with task := .returned } ∈ (s.refuse id stream' violation).streams :=
  List.mem_of_getElem? ((Slots.getElem?_set hid).mpr (.inl ⟨rfl, rfl⟩))

/-- A stream of an unknown type is fine. -/
theorem Stream.Unknown.fine {peerDatagrams : Bool} (h : stream.Unknown) :
    stream.Fine peerDatagrams where
  fine _ := h.not_refused
  left _ _ := h
  told _ hcarries _ := absurd h hcarries.not_unknown

/-- **The type of a stream is there.** -/
theorem Inv.serveTyped (h : Inv s) (hid : s.streams[id]? = some stream)
    (hgoing : stream.fate = .going) (hnone : takeVarint stream.arrived = none) {more : List UInt8}
    (harrived : stream'.arrived = stream.arrived ++ more) (hfate : stream'.fate = .going)
    (hstopped : stream'.stopped = none) {streamType : ℕ} {rest : List UInt8}
    (htake : takeVarint stream'.arrived = some (streamType, rest)) :
    Inv (s.serveTyped id stream' streamType rest) := by
  have hlater : ∀ task code, stream.Later { stream' with task := task, stopped := code } :=
    fun task code => .inl ⟨hgoing, more, harrived⟩
  have hwaits : stream'.fate ≠ .elapsed := by
    rw [hfate]
    rintro ⟨⟩
  have hreturned : ¬stream'.Unknown →
      ({ stream' with task := .returned } : Stream).Sound s.peerDatagrams := fun hunknown =>
    ⟨by rintro buf ⟨⟩, by rintro reader ⟨⟩, fun _ _ => ⟨_, _, htake⟩,
      Stream.stopped_none hstopped hunknown hwaits⟩
  obtain ⟨-, hbefore, -⟩ := Stream.not_refused_of_none hnone
  rw [Peer.serveTyped]
  cases hkind : Critical.ofType streamType with
  | some kind =>
      have hcarries : stream'.Carries kind rest := by
        rw [Stream.Carries, ← Critical.streamType_of_ofType hkind, htake]
      simp only
      rw [Peer.serve]
      cases hseen : s.seen kind with
      | true =>
          rw [if_pos rfl]
          obtain ⟨id', other, bytes', hid', hother⟩ := (h.seen kind).mp hseen
          have hne : id' ≠ id := by
            rintro rfl
            obtain rfl := Option.some.inj (hid.symm.trans hid')
            exact hbefore _ _ hother
          refine h.refuse hid (hlater _ _) (fun kind' => ?_) (hreturned hcarries.not_unknown) ?_
          · refine ⟨.inl, ?_⟩
            rintro (hseen' | ⟨bytes, hcarries'⟩)
            · exact hseen'
            · rwa [(hcarries'.unique hcarries).1]
          · exact .second ((Slots.getElem?_set hid).mpr (.inl ⟨rfl, rfl⟩))
              ((Slots.getElem?_set hid).mpr (.inr ⟨hne, hid'⟩)) hne.symm hcarries hother
      | false =>
          rw [if_neg Bool.false_ne_true]
          have hkind' : (Reader.new kind).kind = kind := by cases kind <;> rfl
          have hcarries' : stream'.Carries (Reader.new kind).kind ([] ++ rest) := by
            rw [hkind']
            exact hcarries
          refine h.read hid hgoing harrived hfate hstopped hcarries' (Reader.has_new kind _ ?_) ?_
            (.inr (hkind'.symm ▸ hseen)) (hkind'.symm ▸ sees_see s kind)
          · rintro rfl
            by_contra hdatagrams
            obtain ⟨id', other, bytes, hid', hother, -⟩ :=
              h.datagrams (Bool.eq_true_of_not_eq_false hdatagrams)
            rw [(h.seen .control).mpr ⟨id', other, bytes, hid', hother⟩] at hseen
            cases hseen
          · rw [hkind']
            rintro id' other reader - hid' htask rfl
            obtain ⟨-, bytes, hother, -⟩ := (h.sound id' other hid').serving reader htask
            rw [(h.seen _).mpr ⟨id', other, bytes, hid', hother⟩] at hseen
            cases hseen
  | none =>
      have hnot : ∀ kind bytes, ¬stream'.Carries kind bytes := fun kind bytes hcarries => by
        rw [(hcarries.ofType htake).1] at hkind
        cases hkind
      simp only
      split_ifs with hpush
      · subst hpush
        refine h.refuse hid (hlater _ _)
          (h.seen_same hid fun kind bytes hcarries => absurd hcarries (hnot kind bytes))
          (hreturned ?_) (.stream (Peer.mem_refuse hid) (.push htake))
        rintro ⟨streamType, rest', htake', -, hne⟩
        exact hne (Prod.mk.inj (Option.some.inj (htake'.symm.trans htake))).1
      · have hunknown : stream'.Unknown := ⟨streamType, rest, htake, hkind, hpush⟩
        refine h.put hid (hlater _ _) (fun kind bytes hcarries => absurd hcarries (hnot kind bytes))
          ⟨by rintro buf ⟨⟩, by rintro reader ⟨⟩, fun _ _ => ⟨_, _, htake⟩, fun code => ?_⟩
          (by rintro reader ⟨⟩) fun _ => Stream.Unknown.fine hunknown
        constructor
        · rintro ⟨⟩
          exact ⟨rfl, .inl hunknown⟩
        · rintro ⟨rfl, -⟩
          rfl

/-- What a stream that has been left carries, it goes on carrying. -/
theorem Stream.carries_before {streamType : ℕ} {rest more : List UInt8}
    (htake : takeVarint stream.arrived = some (streamType, rest))
    (harrived : stream'.arrived = stream.arrived ++ more) :
    takeVarint stream'.arrived = some (streamType, rest ++ more) ∧
      (stream'.Unknown ↔ stream.Unknown) ∧
      ∀ kind bytes, stream'.Carries kind bytes → ∃ bytes, stream.Carries kind bytes := by
  have htake' : takeVarint stream'.arrived = some (streamType, rest ++ more) := by
    rw [harrived]
    exact takeVarint_append htake more
  refine ⟨htake', ⟨?_, ?_⟩, ?_⟩
  · rintro ⟨streamType', rest', htake'', hnone, hne⟩
    obtain ⟨rfl, -⟩ := Prod.mk.inj (Option.some.inj (htake'.symm.trans htake''))
    exact ⟨_, _, htake, hnone, hne⟩
  · rintro ⟨streamType', rest', htake'', hnone, hne⟩
    obtain ⟨rfl, -⟩ := Prod.mk.inj (Option.some.inj (htake.symm.trans htake''))
    exact ⟨_, _, htake', hnone, hne⟩
  · intro kind bytes hcarries
    obtain ⟨rfl, -⟩ := Prod.mk.inj (Option.some.inj (htake'.symm.trans hcarries))
    exact ⟨_, htake⟩

/-- **A chunk arrives.** -/
theorem Inv.chunk (h : Inv s) (hid : s.streams[id]? = some stream) (hgoing : stream.fate = .going)
    (htask : stream'.task = stream.task) (hstopped : stream'.stopped = stream.stopped)
    {bytes : List UInt8} (harrived : stream'.arrived = stream.arrived ++ bytes)
    (hfate : stream'.fate = .going) : Inv (s.chunk id stream' bytes) := by
  have hsound := h.sound id stream hid
  have hlater : ∀ task, stream.Later { stream' with task := task } :=
    fun task => .inl ⟨hgoing, bytes, harrived⟩
  have hwaits : stream'.fate ≠ .elapsed := by
    rw [hfate]
    rintro ⟨⟩
  rw [Peer.chunk]
  cases hat : stream'.task with
  | typing buf =>
      obtain ⟨hbuf, hnone, -⟩ := hsound.typing buf (htask ▸ hat)
      have hnone' : takeVarint stream.arrived = none := hbuf ▸ hnone
      have hnot := hsound.not_stopped (Stream.not_refused_of_none hnone').1 hgoing
      rw [← hstopped] at hnot
      simp only [readStreamType_eq, ← hbuf, ← harrived]
      cases htake : takeVarint stream'.arrived with
      | none =>
          obtain ⟨hunknown, hcarries, hrefused⟩ := Stream.not_refused_of_none htake
          refine h.put hid (hlater _) (fun kind bytes' hcarries' => absurd hcarries' (hcarries _ _))
            ⟨?_, by rintro reader ⟨⟩, by rintro ⟨⟩, Stream.stopped_none hnot hunknown hwaits⟩
            (by rintro reader ⟨⟩) fun _ => ⟨fun violation hrefused' => ?_, by rintro ⟨⟩,
              fun _ hcarries' => absurd hcarries' (hcarries _ _)⟩
          · rintro buf' ⟨⟩
            exact ⟨rfl, htake, hfate⟩
          · exact hrefused _ (hrefused'.later (.inr ⟨rfl, rfl⟩))
      | some typed => exact h.serveTyped hid hgoing hnone' harrived hfate hnot htake
  | serving reader =>
      obtain ⟨-, read, hcarries, hhas⟩ := hsound.serving reader (htask ▸ hat)
      have hnot := hsound.not_stopped hcarries.not_unknown hgoing
      exact h.read hid hgoing harrived hfate (hstopped.trans hnot)
        (Stream.carries_before hcarries harrived).1 hhas
        (h.apart id stream reader hid (htask ▸ hat)) (.inl ⟨read, hcarries⟩)
        (sees_self ((h.seen _).mpr ⟨id, stream, read, hid, hcarries⟩))
  | returned =>
      have hreturned : stream.task = .returned := htask ▸ hat
      obtain ⟨streamType, rest, htake⟩ := hsound.returned hreturned hgoing
      obtain ⟨htake', hunknown, hcarries⟩ := Stream.carries_before htake harrived
      refine h.put hid (.inl ⟨hgoing, bytes, harrived⟩) hcarries
        ⟨fun buf hbuf => ?_, fun reader hreader => ?_, fun _ _ => ⟨_, _, htake'⟩, fun code => ?_⟩
        (fun reader hreader => ?_) fun hnone => Stream.Unknown.fine (hunknown.mpr ?_)
      · rw [hat] at hbuf
        cases hbuf
      · rw [hat] at hreader
        cases hreader
      · rw [hunknown, hstopped, hfate, ← hgoing]
        exact hsound.stopped code
      · rw [hat] at hreader
        cases hreader
      · exact ((h.fine hnone).2 id stream hid).left hreturned hgoing

/-- **A stream ends.** -/
theorem Inv.finish (h : Inv s) (hid : s.streams[id]? = some stream) (hgoing : stream.fate = .going)
    (ending : Ending) :
    Inv (s.finish id { stream with fate := .ended ending s.closed } ending) := by
  have hsound := h.sound id stream hid
  have hlater : stream.Later { stream with task := .returned, fate := .ended ending s.closed } :=
    .inl ⟨hgoing, [], (List.append_nil _).symm⟩
  have hreturned : ({ stream with task := .returned, fate := .ended ending s.closed } :
      Stream).Sound s.peerDatagrams := by
    refine ⟨by rintro buf ⟨⟩, by rintro reader ⟨⟩, by rintro - ⟨⟩, fun code => ?_⟩
    have hstopped := hsound.stopped code
    rw [hgoing] at hstopped
    simpa [Stream.Unknown] using hstopped
  have hsame : ∀ kind bytes,
      ({ stream with task := .returned, fate := .ended ending s.closed } : Stream).Carries kind
        bytes → ∃ bytes, stream.Carries kind bytes :=
    fun kind bytes hcarries => ⟨bytes, hcarries⟩
  rw [Peer.finish]
  cases htask : stream.task with
  | typing buf =>
      obtain ⟨rfl, hnone, -⟩ := hsound.typing buf htask
      obtain ⟨-, hcarries, hrefused⟩ := @Stream.not_refused_of_none
        { stream with task := .returned, fate := .ended ending s.closed } hnone
      exact h.put hid hlater hsame hreturned (by rintro reader ⟨⟩)
        fun _ => ⟨hrefused, by rintro - ⟨⟩, fun _ hcarries' => absurd hcarries' (hcarries _ _)⟩
  | serving reader =>
      obtain ⟨-, read, hcarries, hhas⟩ := hsound.serving reader htask
      simp only [hhas.finish]
      cases hend : reader.kind.judgeEnd read ending s.closed with
      | some violation =>
          exact h.refuse hid hlater (h.seen_same hid hsame) hreturned
            (.stream (Peer.mem_refuse hid) (.ending hcarries rfl hend))
      | none =>
          refine h.put hid hlater hsame hreturned (by rintro reader ⟨⟩)
            fun _ => ⟨fun violation hrefused => ?_, by rintro - ⟨⟩, fun bytes hcarries' htold => ?_⟩
          · cases hrefused with
            | push htake => exact (hcarries.ofType htake).2 rfl
            | bytes hcarries' hv =>
                obtain ⟨rfl, rfl⟩ := Stream.Carries.unique hcarries hcarries'
                rw [hhas.judge] at hv
                cases hv
            | ending hcarries' hfate hv =>
                obtain ⟨rfl, rfl⟩ := Stream.Carries.unique hcarries hcarries'
                cases hfate
                rw [hend] at hv
                cases hv
          · obtain ⟨hkind, rfl⟩ := Stream.Carries.unique hcarries hcarries'
            rw [← hhas.flag.1 hkind, hkind]
            exact htold
  | returned =>
      obtain ⟨streamType, rest, htake⟩ := hsound.returned htask hgoing
      exact h.put hid hlater hsame hreturned (by rintro reader ⟨⟩)
        fun hnone => Stream.Unknown.fine (((h.fine hnone).2 id stream hid).left htask hgoing)

/-- **The type of a stream did not come in time.** -/
theorem Inv.elapse (h : Inv s) (hid : s.streams[id]? = some stream) {buf : List UInt8}
    (htask : stream.task = .typing buf) :
    Inv (s.put id ⟨.returned, some Code.h3StreamCreationError, stream.arrived, .elapsed⟩) := by
  obtain ⟨rfl, hnone, hgoing⟩ := (h.sound id stream hid).typing buf htask
  obtain ⟨-, hcarries, hrefused⟩ := @Stream.not_refused_of_none
    ⟨.returned, some Code.h3StreamCreationError, stream.arrived, .elapsed⟩ hnone
  refine h.put hid (.inl ⟨hgoing, [], (List.append_nil _).symm⟩)
    (fun kind bytes hcarries' => ⟨bytes, hcarries'⟩)
    ⟨by rintro buf ⟨⟩, by rintro reader ⟨⟩, by rintro - ⟨⟩, fun code => ?_⟩
    (by rintro reader ⟨⟩)
    fun _ => ⟨hrefused, by rintro - ⟨⟩, fun _ hcarries' => absurd hcarries' (hcarries _ _)⟩
  constructor
  · rintro ⟨⟩
    exact ⟨rfl, .inr rfl⟩
  · rintro ⟨rfl, -⟩
    rfl

/-- **A stream is opened.** -/
theorem Inv.opened (h : Inv s) :
    Inv { s with streams := s.streams ++ [⟨.typing [], none, [], .going⟩] } := by
  obtain ⟨hunknown, hcarries, hrefused⟩ :=
    @Stream.not_refused_of_none ⟨.typing [], none, [], .going⟩ rfl
  have hlater : s.Later { s with streams := s.streams ++ [⟨.typing [], none, [], .going⟩] } :=
    ⟨fun id stream hid => ⟨stream, Slots.getElem?_concat.mpr (.inl hid), .inr ⟨rfl, rfl⟩⟩,
      fun _ => id, fun _ => id⟩
  exact {
    sound := fun id stream hid => by
      rcases Slots.getElem?_concat.mp hid with hid | ⟨-, rfl⟩
      · exact h.sound id stream hid
      · refine ⟨?_, by rintro reader ⟨⟩, by rintro ⟨⟩,
          Stream.stopped_none rfl hunknown (by rintro ⟨⟩)⟩
        rintro buf ⟨⟩
        exact ⟨rfl, rfl, rfl⟩
    apart := fun id stream reader hid htask id' stream' reader' hne hid' htask' => by
      rcases Slots.getElem?_concat.mp hid with hid | ⟨-, rfl⟩
      · rcases Slots.getElem?_concat.mp hid' with hid' | ⟨-, rfl⟩
        · exact h.apart id stream reader hid htask id' stream' reader' hne hid' htask'
        · cases htask'
      · cases htask
    seen := fun kind => by
      refine (h.seen kind).trans ⟨?_, ?_⟩
      · rintro ⟨id, stream, bytes, hid, hkind⟩
        exact ⟨id, stream, bytes, Slots.getElem?_concat.mpr (.inl hid), hkind⟩
      · rintro ⟨id, stream, bytes, hid, hkind⟩
        rcases Slots.getElem?_concat.mp hid with hid | ⟨-, rfl⟩
        · exact ⟨id, stream, bytes, hid, hkind⟩
        · exact absurd hkind (hcarries _ _)
    datagrams := fun hdatagrams => by
      obtain ⟨id, stream, bytes, hid, hkind, htold⟩ := h.datagrams hdatagrams
      exact ⟨id, stream, bytes, Slots.getElem?_concat.mpr (.inl hid), hkind, htold⟩
    faulty := fun violation hviolation => (h.faulty violation hviolation).later hlater
    fine := fun hnone => by
      obtain ⟨hfaults, hfine⟩ := h.fine hnone
      refine ⟨fun violation hfault => ?_, fun id stream hid => ?_⟩
      · cases hfault with
        | stream hmem hv =>
            rcases List.mem_append.mp hmem with hmem | hmem
            · exact hfaults _ (.stream hmem hv)
            · obtain rfl := List.mem_singleton.mp hmem
              exact hrefused _ hv
        | second hid hid' hne hkind hkind' =>
            rcases Slots.getElem?_concat.mp hid with hid | ⟨-, rfl⟩
            · rcases Slots.getElem?_concat.mp hid' with hid' | ⟨-, rfl⟩
              · exact hfaults _ (.second hid hid' hne hkind hkind')
              · exact hcarries _ _ hkind'
            · exact hcarries _ _ hkind
        | datagram hmem hv => exact hfaults _ (.datagram hmem hv)
        | elsewhere hmem => exact hfaults _ (.elsewhere hmem)
      · rcases Slots.getElem?_concat.mp hid with hid | ⟨-, rfl⟩
        · exact hfine id stream hid
        · exact ⟨hrefused, by rintro ⟨⟩, fun _ hkind => absurd hkind (hcarries _ _)⟩ }

/-- **A datagram is read.** -/
theorem Inv.datagram (h : Inv s) (bytes : List UInt8) : Inv (s.step (.datagram bytes)) := by
  rw [Peer.step]
  split_ifs
  · cases hroute : Datagram.routeDatagram bytes with
    | fail violation =>
        exact h.beside rfl (fun _ => rfl) rfl
          ⟨fun id stream hid => ⟨stream, hid, .inr ⟨rfl, rfl⟩⟩,
            fun _ hmem => List.mem_append_left _ hmem, fun _ => id⟩
          (.inr ⟨violation, rfl, .datagram (List.mem_append_right _ List.mem_cons_self) hroute⟩)
    | deliver _ | countDrop _ =>
        refine h.beside rfl (fun _ => rfl) rfl
          ⟨fun id stream hid => ⟨stream, hid, .inr ⟨rfl, rfl⟩⟩,
            fun _ hmem => List.mem_append_left _ hmem, fun _ => id⟩
          (.inl ⟨rfl, fun violation hfault => ?_⟩)
        cases hfault with
        | stream hmem hv => exact .stream hmem hv
        | second hid hid' hne hkind hkind' => exact .second hid hid' hne hkind hkind'
        | elsewhere hmem => exact .elsewhere hmem
        | datagram hmem hv =>
            rcases List.mem_append.mp hmem with hmem | hmem
            · exact .datagram hmem hv
            · rw [List.mem_singleton.mp hmem, hroute] at hv
              cases hv
  · exact h

/-- A stream is at work exactly if it is on record and has not ended. -/
theorem Peer.going?_eq_some (h : s.going? id = some stream) :
    s.streams[id]? = some stream ∧ stream.fate = .going := by
  rw [Peer.going?] at h
  split_ifs at h
  obtain ⟨hid, hgoing⟩ := Option.filter_eq_some_iff.mp h
  exact ⟨hid, of_decide_eq_true hgoing⟩

/-- Where only the ends of the connection and of its tasks are noted, nothing is judged. -/
theorem Inv.over (h : Inv s) (closed serving : Bool) :
    Inv { s with closed := closed, serving := serving } := by
  refine h.beside rfl (fun _ => rfl) rfl
    ⟨fun id stream hid => ⟨stream, hid, .inr ⟨rfl, rfl⟩⟩, fun _ => id, fun _ => id⟩
    (.inl ⟨rfl, fun violation hfault => ?_⟩)
  cases hfault with
  | stream hmem hv => exact .stream hmem hv
  | second hid hid' hne hkind hkind' => exact .second hid hid' hne hkind hkind'
  | datagram hmem hv => exact .datagram hmem hv
  | elsewhere hmem => exact .elsewhere hmem

/-- **What every step preserves.** -/
theorem Inv.step (h : Inv s) (event : Event) : Inv (s.step event) := by
  cases event with
  | opened =>
      rw [Peer.step]
      split_ifs
      · exact h.opened
      · exact h
  | chunk id bytes =>
      rw [Peer.step]
      cases hat : s.going? id with
      | none => exact h
      | some stream =>
          obtain ⟨hid, hgoing⟩ := Peer.going?_eq_some hat
          exact @Inv.chunk stream { stream with arrived := stream.arrived ++ bytes } s id h hid
            hgoing rfl rfl bytes rfl hgoing
  | ended id ending =>
      rw [Peer.step]
      cases hat : s.going? id with
      | none => exact h
      | some stream =>
          obtain ⟨hid, hgoing⟩ := Peer.going?_eq_some hat
          exact h.finish hid hgoing ending
  | elapsed id =>
      rw [Peer.step]
      split
      · rename_i buf stopped arrived fate hat
        exact h.elapse (Peer.going?_eq_some hat).1 rfl
      · exact h
  | datagram bytes => exact h.datagram bytes
  | failed violation =>
      exact h.beside rfl (fun _ => rfl) rfl
        ⟨fun id stream hid => ⟨stream, hid, .inr ⟨rfl, rfl⟩⟩, fun _ => id,
          fun _ hmem => List.mem_append_left _ hmem⟩
        (.inr ⟨violation, rfl, .elsewhere (List.mem_append_right _ List.mem_cons_self)⟩)
  | lost => exact h.over true s.serving
  | returned =>
      rw [Peer.step]
      split_ifs
      · exact h.over s.closed false
      · exact h

/-- The invariant holds of a connection without streams. -/
theorem inv_new : Inv Peer.new where
  sound := by rintro id stream ⟨⟩
  apart := by rintro id stream reader ⟨⟩
  seen kind := by
    refine iff_of_false ?_ ?_
    · rcases kind with _ | (_ | _) <;> exact Bool.false_ne_true
    · rintro ⟨id, stream, bytes, ⟨⟩, -⟩
  datagrams := by rintro ⟨⟩
  faulty := by rintro violation ⟨⟩
  fine _ := by
    refine ⟨fun violation hfault => ?_, by rintro id stream ⟨⟩⟩
    cases hfault with
    | stream hmem => cases hmem
    | second hid => cases hid
    | datagram hmem => cases hmem
    | elsewhere hmem => cases hmem

/-- **Run lemma**: the invariant holds after every list of events. -/
theorem inv_run (events : List Event) : Inv (Peer.run events) :=
  History.run_invariant (fun _ event h => h.step event) inv_new events

/-- **What the peer's streams are judged by.** However the streams of the peer arrive, cut and
between one another, with datagrams, timeouts and the end of the connection in between:

* the connection is failed exactly when a stream is refused for what has arrived of it, or for its
  ending, or is a second one of a kind that there is one of, or when a datagram is unusable or
  something else failed it; and what is recorded is one of these;
* the peer is known to take datagrams only if a control stream has said so, and while the connection
  was not failed, as soon as one has;
* while it was not failed, every datagram led with a Quarter Stream ID that a stream can have;
* a stream is asked to stop exactly when its type is unknown or did not come in time, always with
  `H3_STREAM_CREATION_ERROR`. -/
theorem peer_streams_judged (events : List Event) :
    ((Peer.run events).localError = none ↔ ∀ violation, ¬(Peer.run events).Fault violation) ∧
    (∀ violation, (Peer.run events).localError = some violation →
      (Peer.run events).Fault violation) ∧
    ((Peer.run events).peerDatagrams = true → ∃ stream ∈ (Peer.run events).streams, ∃ bytes,
      stream.Carries .control bytes ∧ Critical.control.saysDatagrams bytes = true) ∧
    ((Peer.run events).localError = none →
      ∀ stream ∈ (Peer.run events).streams, ∀ bytes, stream.Carries .control bytes →
        Critical.control.saysDatagrams bytes = true → (Peer.run events).peerDatagrams = true) ∧
    ((Peer.run events).localError = none → ∀ datagram ∈ (Peer.run events).datagrams,
      ∃ quarterStreamId ≤ maxQuarterStreamId, Leads quarterStreamId datagram) ∧
    ∀ stream ∈ (Peer.run events).streams, ∀ code, stream.stopped = some code ↔
      code = Code.h3StreamCreationError ∧ (stream.Unknown ∨ stream.fate = .elapsed) := by
  have h := inv_run events
  generalize Peer.run events = s at h
  refine ⟨⟨fun hnone => (h.fine hnone).1, fun hfaults => ?_⟩, h.faulty, fun hdatagrams => ?_,
    fun hnone stream hmem => ?_, fun hnone datagram hmem => ?_, fun stream hmem => ?_⟩
  · cases herror : s.localError with
    | none => rfl
    | some violation => exact absurd (h.faulty violation herror) (hfaults violation)
  · obtain ⟨id, stream, bytes, hid, hcarries, htold⟩ := h.datagrams hdatagrams
    exact ⟨stream, List.mem_of_getElem? hid, bytes, hcarries, htold⟩
  · obtain ⟨id, hid⟩ := List.mem_iff_getElem?.mp hmem
    exact ((h.fine hnone).2 id stream hid).told
  · by_contra hunusable
    obtain ⟨violation, hfail⟩ : ∃ violation, Datagram.routeDatagram datagram = .fail violation := by
      rw [Datagram.routeDatagram_fails_iff, or_iff_not_imp_left, not_not]
      rintro ⟨value, hleads⟩
      exact ⟨value, hleads, Nat.lt_of_not_le fun hle => hunusable ⟨value, hle, hleads⟩⟩
    exact (h.fine hnone).1 violation (.datagram hmem hfail)
  · obtain ⟨id, hid⟩ := List.mem_iff_getElem?.mp hmem
    exact (h.sound id stream hid).stopped

end PeerStreams

end Volto
