import Volto.Lib.Resumable
import Volto.Varint

/-!
# The Capsule Protocol

The capsule layer of `capsule.rs`. The body of a request stream with capsules is a sequence of
a type, a length and that much value. Capsules do not align with the chunks of the stream, so
`CapsuleDecoder` is fed arbitrary bytes; a DATAGRAM capsule is buffered whole, which its largest
value bounds, and any other type is discarded as it arrives.

`CapsuleDecoder.loop` is the loop of `next_capsule`, given by one pass of it. An error consumes
what it rejected, so that a caller may go on past it; the outputs of the loop are therefore
capsules and errors alike.

## Main results

* `CapsuleDecoder.resumes`: the decoder loses nothing by waiting.
* `CapsuleDecoder.decoding_of_flatten_eq`: what is decoded does not depend on the chunks.
-/

namespace Volto

open Resumable

/-- Largest UDP payload that can be represented. -/
def maxUdpPayload : ℕ := 65527

/-- DATAGRAM capsule type. -/
def capsuleTypeDatagram : ℕ := 0x00

/-- Largest DATAGRAM capsule value accepted. -/
def maxDatagramCapsuleValue : ℕ := 8 + maxUdpPayload

/-- Why a capsule sequence could not be decoded. -/
inductive CapsuleError
  /-- The stream ended part-way through a capsule; the caller's error, not the decoder's. -/
  | truncated
  /-- A DATAGRAM capsule declared more bytes than a UDP payload can hold. -/
  | datagramTooLarge (length : ℕ)
  /-- A DATAGRAM capsule's value ended before its Context ID. -/
  | malformedDatagram
deriving DecidableEq, Repr

/-- A decoded capsule: only the type this proxy acts on. -/
inductive Capsule
  | datagram (contextId : ℕ) (payload : List UInt8)
deriving DecidableEq, Repr

/-- Where the decoder is in the capsule sequence. -/
inductive CapsuleDecoder.State
  /-- Between capsules, reading a type and a length. -/
  | header
  /-- Buffering the value of a capsule to act on. -/
  | value (length : ℕ)
  /-- Discarding the value of an unknown capsule type. -/
  | skip (remaining : ℕ)
deriving DecidableEq, Repr

/-- An incremental capsule decoder. -/
structure CapsuleDecoder where
  buffer : List UInt8
  state : CapsuleDecoder.State
deriving DecidableEq, Repr

namespace CapsuleDecoder

/-- A decoder positioned at the start of a capsule sequence. -/
def new : CapsuleDecoder :=
  ⟨[], .header⟩

/-- Adds received bytes. -/
def push (d : CapsuleDecoder) (chunk : List UInt8) : CapsuleDecoder :=
  { d with buffer := d.buffer ++ chunk }

/-- Whether the sequence is currently between capsules. -/
def atCapsuleBoundary (d : CapsuleDecoder) : Bool :=
  match d.state with
  | .header => d.buffer.isEmpty
  | .skip 0 => d.buffer.isEmpty
  | _ => false

/-- The type and the length at the start of a buffer and what they occupy; both varints must be
present before either is consumed. -/
def peekHeader (buffer : List UInt8) : Option (ℕ × ℕ × ℕ) := do
  let (capsuleType, typeLen) ← peekVarint buffer
  let (length, lengthLen) ← peekVarint (buffer.drop typeLen)
  pure (capsuleType, length, typeLen + lengthLen)

/-- One pass through the loop of `next_capsule`. -/
def pass (d : CapsuleDecoder) : Pass CapsuleDecoder (Except CapsuleError Capsule) :=
  match d.state with
  | .skip remaining =>
      if remaining = 0 then
        .again { d with state := .header }
      else if d.buffer.isEmpty then
        .wait
      else
        let discard := min remaining d.buffer.length
        .again ⟨d.buffer.drop discard, .skip (remaining - discard)⟩
  | .header =>
      match peekHeader d.buffer with
      | none => .wait
      | some (capsuleType, length, used) =>
          if capsuleType = capsuleTypeDatagram then
            if maxDatagramCapsuleValue < length then
              .emit (.error (.datagramTooLarge length)) ⟨d.buffer.drop used, .header⟩
            else
              .again ⟨d.buffer.drop used, .value length⟩
          else
            .again ⟨d.buffer.drop used, .skip length⟩
  | .value length =>
      if d.buffer.length < length then
        .wait
      else
        match takeVarint (d.buffer.take length) with
        | none => .emit (.error .malformedDatagram) ⟨d.buffer.drop length, .header⟩
        | some (contextId, payload) =>
            .emit (.ok (.datagram contextId payload)) ⟨d.buffer.drop length, .header⟩

/-- Twice what is buffered, and one more inside a capsule: every pass reads a header, discards
bytes or leaves a capsule. -/
def weight (d : CapsuleDecoder) : ℕ :=
  2 * d.buffer.length + if d.state = .header then 0 else 1

/-! ### Passes -/

/-- A header is at least two bytes of its buffer. -/
theorem peekHeader_bounds {buffer : List UInt8} {capsuleType length used : ℕ}
    (h : peekHeader buffer = some (capsuleType, length, used)) :
    2 ≤ used ∧ used ≤ buffer.length := by
  simp only [peekHeader, bind, Option.bind_eq_some_iff, pure, Option.some.injEq] at h
  obtain ⟨⟨kind, typeLen⟩, hkind, ⟨value, lengthLen⟩, hvalue, heq⟩ := h
  cases heq
  have hfirst := peekVarint_bounds hkind
  have hsecond := peekVarint_bounds hvalue
  rw [List.length_drop] at hsecond
  omega

/-- A header that is all there is the same header with more behind it. -/
theorem peekHeader_append {buffer : List UInt8} {r : ℕ × ℕ × ℕ} (h : peekHeader buffer = some r)
    (more : List UInt8) : peekHeader (buffer ++ more) = some r := by
  simp only [peekHeader, bind, Option.bind_eq_some_iff, pure, Option.some.injEq] at h ⊢
  obtain ⟨⟨kind, typeLen⟩, hkind, ⟨value, lengthLen⟩, hvalue, rfl⟩ := h
  have hle := (peekVarint_bounds hkind).2.2.1
  refine ⟨_, peekVarint_append hkind more, (value, lengthLen), ?_, rfl⟩
  rw [List.drop_append_of_le_length hle]
  exact peekVarint_append hvalue more

/-- A value skipped to its end is followed by a header. -/
theorem pass_skip_zero {d : CapsuleDecoder} (hs : d.state = .skip 0) :
    d.pass = .again { d with state := .header } := by
  simp only [pass, hs, if_true]

/-- Nothing is skipped of no bytes. -/
theorem pass_skip_nil {d : CapsuleDecoder} {remaining : ℕ} (hs : d.state = .skip remaining)
    (hr : remaining ≠ 0) (hb : d.buffer = []) : d.pass = .wait := by
  simp only [pass, hs, if_neg hr, hb, List.isEmpty_nil, if_true]

/-- As much is skipped as is there. -/
theorem pass_skip {d : CapsuleDecoder} {remaining : ℕ} (hs : d.state = .skip remaining)
    (hr : remaining ≠ 0) (hb : d.buffer ≠ []) :
    d.pass = .again ⟨d.buffer.drop (min remaining d.buffer.length),
      .skip (remaining - min remaining d.buffer.length)⟩ := by
  simp only [pass, hs, if_neg hr, List.isEmpty_iff, if_neg hb]

/-- A header that is cut short is waited for. -/
theorem pass_header_none {d : CapsuleDecoder} (hs : d.state = .header)
    (hp : peekHeader d.buffer = none) : d.pass = .wait := by
  simp only [pass, hs, hp]

/-- A header says what is done with the value. -/
theorem pass_header {d : CapsuleDecoder} (hs : d.state = .header) {capsuleType length used : ℕ}
    (hp : peekHeader d.buffer = some (capsuleType, length, used)) :
    d.pass =
      if capsuleType = capsuleTypeDatagram then
        if maxDatagramCapsuleValue < length then
          .emit (.error (.datagramTooLarge length)) ⟨d.buffer.drop used, .header⟩
        else
          .again ⟨d.buffer.drop used, .value length⟩
      else
        .again ⟨d.buffer.drop used, .skip length⟩ := by
  simp only [pass, hs, hp]

/-- The capsule a whole value is. -/
def ofValue (value : List UInt8) : Except CapsuleError Capsule :=
  match takeVarint value with
  | none => .error .malformedDatagram
  | some (contextId, payload) => .ok (.datagram contextId payload)

/-- A value that is cut short is waited for. -/
theorem pass_value_wait {d : CapsuleDecoder} {length : ℕ} (hs : d.state = .value length)
    (hlt : d.buffer.length < length) : d.pass = .wait := by
  simp only [pass, hs, if_pos hlt]

/-- A whole value is read. -/
theorem pass_value {d : CapsuleDecoder} {length : ℕ} (hs : d.state = .value length)
    (hle : length ≤ d.buffer.length) :
    d.pass = .emit (ofValue (d.buffer.take length)) ⟨d.buffer.drop length, .header⟩ := by
  simp only [pass, hs, if_neg (Nat.not_lt.mpr hle), ofValue]
  cases takeVarint (d.buffer.take length) <;> rfl

/-- **Everything one pass can do**, with what it needed for it. -/
inductive Passes (d : CapsuleDecoder) : Pass CapsuleDecoder (Except CapsuleError Capsule) → Prop
  | skipWait {remaining : ℕ} (hs : d.state = .skip remaining) (hr : remaining ≠ 0)
      (hb : d.buffer = []) : Passes d .wait
  | headerWait (hs : d.state = .header) (hp : peekHeader d.buffer = none) : Passes d .wait
  | valueWait {length : ℕ} (hs : d.state = .value length) (hlt : d.buffer.length < length) :
      Passes d .wait
  | skipDone (hs : d.state = .skip 0) : Passes d (.again { d with state := .header })
  | skipMore {remaining : ℕ} (hs : d.state = .skip remaining) (hr : remaining ≠ 0)
      (hb : d.buffer ≠ []) :
      Passes d (.again ⟨d.buffer.drop (min remaining d.buffer.length),
        .skip (remaining - min remaining d.buffer.length)⟩)
  | enterValue {length used : ℕ} (hs : d.state = .header)
      (hp : peekHeader d.buffer = some (capsuleTypeDatagram, length, used))
      (hle : length ≤ maxDatagramCapsuleValue) :
      Passes d (.again ⟨d.buffer.drop used, .value length⟩)
  | enterSkip {capsuleType length used : ℕ} (hs : d.state = .header)
      (hp : peekHeader d.buffer = some (capsuleType, length, used))
      (hne : capsuleType ≠ capsuleTypeDatagram) :
      Passes d (.again ⟨d.buffer.drop used, .skip length⟩)
  | tooLarge {length used : ℕ} (hs : d.state = .header)
      (hp : peekHeader d.buffer = some (capsuleTypeDatagram, length, used))
      (hlt : maxDatagramCapsuleValue < length) :
      Passes d (.emit (.error (.datagramTooLarge length)) ⟨d.buffer.drop used, .header⟩)
  | whole {length : ℕ} (hs : d.state = .value length) (hle : length ≤ d.buffer.length) :
      Passes d (.emit (ofValue (d.buffer.take length)) ⟨d.buffer.drop length, .header⟩)

/-- The list of passes is complete. -/
theorem passes (d : CapsuleDecoder) : Passes d d.pass := by
  cases hs : d.state with
  | header =>
      cases hp : peekHeader d.buffer with
      | none =>
          rw [pass_header_none hs hp]
          exact .headerWait hs hp
      | some r =>
          obtain ⟨capsuleType, length, used⟩ := r
          rw [pass_header hs hp]
          split_ifs with htype hlarge
          · subst htype
            exact .tooLarge hs hp hlarge
          · subst htype
            exact .enterValue hs hp (Nat.not_lt.mp hlarge)
          · exact .enterSkip hs hp htype
  | value length =>
      rcases Nat.lt_or_ge d.buffer.length length with hlt | hle
      · rw [pass_value_wait hs hlt]
        exact .valueWait hs hlt
      · rw [pass_value hs hle]
        exact .whole hs hle
  | skip remaining =>
      by_cases hr : remaining = 0
      · subst hr
        rw [pass_skip_zero hs]
        exact .skipDone hs
      · by_cases hb : d.buffer = []
        · rw [pass_skip_nil hs hr hb]
          exact .skipWait hs hr hb
        · rw [pass_skip hs hr hb]
          exact .skipMore hs hr hb

/-- The loop of `next_capsule`. -/
def loop : Loop CapsuleDecoder (Except CapsuleError Capsule) where
  pass := pass
  weight := weight
  again_lt := by
    intro d d' h
    have hpass := d.passes
    rw [h] at hpass
    cases hpass with
    | skipDone hs => simp [weight, hs]
    | @skipMore remaining hs hr hb =>
        have hpos := List.length_pos_iff.mpr hb
        simp only [weight, hs, reduceCtorEq, if_false, List.length_drop]
        omega
    | enterValue hs hp hle =>
        have hbounds := peekHeader_bounds hp
        simp only [weight, hs, reduceCtorEq, if_true, if_false, List.length_drop]
        omega
    | enterSkip hs hp hne =>
        have hbounds := peekHeader_bounds hp
        simp only [weight, hs, reduceCtorEq, if_true, if_false, List.length_drop]
        omega
  emit_lt := by
    intro d d' out h
    have hpass := d.passes
    rw [h] at hpass
    cases hpass with
    | tooLarge hs hp hlt =>
        have hbounds := peekHeader_bounds hp
        simp only [weight, hs, if_true, List.length_drop]
        omega
    | whole hs hle =>
        simp only [weight, hs, reduceCtorEq, if_true, if_false, List.length_drop]
        omega

/-- Decodes the next capsule of interest, or says that more bytes are needed. -/
def nextCapsule (d : CapsuleDecoder) : Option (Except CapsuleError Capsule) × CapsuleDecoder :=
  loop.next d

/-- Pushes each chunk and calls `nextCapsule` until it asks for more, past any error. -/
def decode (d : CapsuleDecoder) (chunks : List (List UInt8)) :
    List (Except CapsuleError Capsule) × CapsuleDecoder :=
  loop.feed push d chunks

/-! ### Chunks -/

/-- Discarding in two steps is discarding in one. -/
theorem drain_push_skip {d : CapsuleDecoder} {remaining : ℕ} (hs : d.state = .skip remaining)
    (hr : remaining ≠ 0) (hb : d.buffer ≠ []) (more : List UInt8) :
    loop.drain (d.push more) =
      loop.drain (push ⟨d.buffer.drop (min remaining d.buffer.length),
        .skip (remaining - min remaining d.buffer.length)⟩ more) := by
  have hpush : (d.push more).buffer ≠ [] := by simp [push, hb]
  have hfirst : loop.pass (d.push more) = .again ⟨(d.buffer ++ more).drop
      (min remaining (d.buffer ++ more).length),
      .skip (remaining - min remaining (d.buffer ++ more).length)⟩ :=
    pass_skip (d := d.push more) hs hr hpush
  rw [Loop.drain_of_again hfirst]
  rcases Nat.lt_or_ge d.buffer.length remaining with hlt | hle
  · -- all of the buffer is discarded, and the rest of the value comes out of what follows
    rw [Nat.min_eq_right (Nat.le_of_lt hlt), List.drop_length]
    by_cases hmore : more = []
    · subst hmore
      rw [List.append_nil, Nat.min_eq_right (Nat.le_of_lt hlt), List.drop_length]
      rfl
    · have hne : remaining - d.buffer.length ≠ 0 := by omega
      have hsecond : loop.pass (push ⟨[], .skip (remaining - d.buffer.length)⟩ more) =
          .again ⟨more.drop (min (remaining - d.buffer.length) more.length),
            .skip (remaining - d.buffer.length -
              min (remaining - d.buffer.length) more.length)⟩ :=
        pass_skip (d := push ⟨[], .skip (remaining - d.buffer.length)⟩ more) rfl hne hmore
      rw [Loop.drain_of_again hsecond]
      have hmin : min remaining (d.buffer ++ more).length =
          d.buffer.length + min (remaining - d.buffer.length) more.length := by
        rw [List.length_append]
        omega
      rw [hmin, List.drop_append, ← Nat.sub_sub, List.drop_of_length_le (Nat.le_add_right _ _)]
      simp
  · have hmin : min remaining (d.buffer ++ more).length = remaining := by
      rw [List.length_append]
      omega
    rw [hmin, Nat.min_eq_left hle, List.drop_append_of_le_length hle]
    rfl

/-- **The decoder loses nothing by waiting.** -/
theorem resumes : loop.Resumes push where
  push_nil d := by simp [push]
  push_append d chunk chunk' := by simp [push]
  again := by
    intro d d' h more
    have hpass := d.passes
    rw [show d.pass = .again d' from h] at hpass
    cases hpass with
    | skipDone hs =>
        have hagain : loop.pass (d.push more) = .again (push { d with state := .header } more) :=
          pass_skip_zero (d := d.push more) hs
        exact Loop.drain_of_again hagain
    | skipMore hs hr hb => exact drain_push_skip hs hr hb more
    | @enterValue length used hs hp hle =>
        have hagain : loop.pass (d.push more) =
            .again (push ⟨d.buffer.drop used, .value length⟩ more) := by
          refine (pass_header (d := d.push more) hs (peekHeader_append hp more)).trans ?_
          rw [if_pos rfl, if_neg (Nat.not_lt.mpr hle), push, push,
            List.drop_append_of_le_length (peekHeader_bounds hp).2]
        exact Loop.drain_of_again hagain
    | @enterSkip capsuleType length used hs hp hne =>
        have hagain : loop.pass (d.push more) =
            .again (push ⟨d.buffer.drop used, .skip length⟩ more) := by
          refine (pass_header (d := d.push more) hs (peekHeader_append hp more)).trans ?_
          rw [if_neg hne, push, push, List.drop_append_of_le_length (peekHeader_bounds hp).2]
        exact Loop.drain_of_again hagain
  emit := by
    intro d d' out h more
    have hpass := d.passes
    rw [show d.pass = .emit out d' from h] at hpass
    cases hpass with
    | tooLarge hs hp hlt =>
        refine (pass_header (d := d.push more) hs (peekHeader_append hp more)).trans ?_
        rw [if_pos rfl, if_pos hlt, push, push,
          List.drop_append_of_le_length (peekHeader_bounds hp).2]
    | @whole length hs hle =>
        have hle' : length ≤ (d.push more).buffer.length := by
          simp only [push, List.length_append]
          omega
        refine (pass_value (d := d.push more) hs hle').trans ?_
        rw [push, push, List.take_append_of_le_length hle, List.drop_append_of_le_length hle]

/-- A fresh decoder waits. -/
theorem pass_new : loop.pass new = .wait :=
  pass_header_none (d := new) rfl rfl

/-- **A run over chunks is one drain of their concatenation.** -/
theorem decode_eq (chunks : List (List UInt8)) :
    new.decode chunks = loop.drain (new.push chunks.flatten) :=
  resumes.feed_eq pass_new chunks

/-- One chunk more is one drain more. -/
theorem decode_concat (chunks : List (List UInt8)) (chunk : List UInt8) :
    new.decode (chunks ++ [chunk]) =
      ((new.decode chunks).1 ++ (loop.drain ((new.decode chunks).2.push chunk)).1,
        (loop.drain ((new.decode chunks).2.push chunk)).2) := by
  rw [decode_eq, decode_eq, List.flatten_append, List.flatten_singleton, ← resumes.push_append,
    resumes.drain_push]

/-- **Decoding does not depend on how the stream was cut**: two runs over the same bytes return
the same capsules and errors in the same order and end in the same place; and a decoder that
asks for more stays as it is until it gets more. -/
theorem decoding_of_flatten_eq :
    (∀ chunks chunks' : List (List UInt8), chunks.flatten = chunks'.flatten →
      (new.decode chunks).1 = (new.decode chunks').1 ∧
      (new.decode chunks).2.atCapsuleBoundary = (new.decode chunks').2.atCapsuleBoundary) ∧
    ∀ d d' : CapsuleDecoder, d.nextCapsule = (none, d') → d'.nextCapsule = (none, d') := by
  constructor
  · intro chunks chunks' hflatten
    rw [decode_eq, decode_eq, hflatten]
    exact ⟨rfl, rfl⟩
  · intro d d' h
    exact Loop.next_of_wait (Loop.pass_of_next_none h)

end CapsuleDecoder

end Volto
