import Volto.Lib.Framing
import Volto.Capsule

/-!
# Capsules as They Are Written

`encodeDatagram` writes a DATAGRAM capsule; a capsule of any other type is its type, the length
of its value and the value. A sequence of both is read back as the DATAGRAM capsules in it, and
the decoder is between capsules exactly where the sequence is, so that a stream that ends inside
one is always seen.

## Main results

* `WireCapsule.Admissible.drain_append`: one written capsule, whatever follows it.
* `WireCapsule.Admissible.drain_part`: a capsule that is not all there.
* `decode_encode_capsules`: the round trip.
-/

namespace Volto

open Resumable Framing

/-- Encodes a DATAGRAM capsule, or `none` where a varint cannot be written. -/
def encodeDatagram (contextId : ℕ) (payload : List UInt8) : Option (List UInt8) := do
  let valueLen := varintLen contextId + payload.length
  let kind ← putVarint capsuleTypeDatagram
  let length ← putVarint valueLen
  let context ← putVarint contextId
  pure (kind ++ length ++ context ++ payload)

/-- A capsule as it is written. -/
inductive WireCapsule
  | datagram (contextId : ℕ) (payload : List UInt8)
  | unknown (capsuleType : ℕ) (value : List UInt8)
deriving DecidableEq, Repr

namespace WireCapsule

/-- The bytes of a capsule. -/
def encode : WireCapsule → Option (List UInt8)
  | .datagram contextId payload => encodeDatagram contextId payload
  | .unknown capsuleType value => do
      let kind ← putVarint capsuleType
      let length ← putVarint value.length
      pure (kind ++ length ++ value)

/-- A Context ID that is a varint and a payload that UDP can carry, or any other type and a value
whose length is a varint. -/
def Admissible : WireCapsule → Prop
  | .datagram contextId payload => contextId ≤ varintMax ∧ payload.length ≤ maxUdpPayload
  | .unknown capsuleType value =>
      capsuleType ≤ varintMax ∧ capsuleType ≠ capsuleTypeDatagram ∧ value.length ≤ varintMax

/-- Whether a capsule may be sent is decided by its fields. -/
instance : DecidablePred Admissible
  | .datagram contextId payload =>
      inferInstanceAs (Decidable (contextId ≤ varintMax ∧ payload.length ≤ maxUdpPayload))
  | .unknown capsuleType value =>
      inferInstanceAs (Decidable (capsuleType ≤ varintMax ∧ capsuleType ≠ capsuleTypeDatagram ∧
        value.length ≤ varintMax))

/-- What the decoder makes of a capsule: a DATAGRAM is returned and any other type is not. -/
def read : WireCapsule → List Capsule
  | .datagram contextId payload => [.datagram contextId payload]
  | .unknown _ _ => []

/-! ### Headers and values -/

/-- Bytes that read as a type and a length, at their last byte and not before. -/
structure Heads (header : List UInt8) (capsuleType length : ℕ) : Prop where
  whole : ∀ rest, CapsuleDecoder.peekHeader (header ++ rest) =
    some (capsuleType, length, header.length)
  part : ∀ k < header.length, CapsuleDecoder.peekHeader (header.take k) = none

/-- Two varints make a header. -/
theorem heads_of_putVarint {capsuleType length : ℕ} {front back : List UInt8}
    (hfront : putVarint capsuleType = some front) (hback : putVarint length = some back) :
    Heads (front ++ back) capsuleType length where
  whole rest := by
    rw [List.append_assoc]
    simp [CapsuleDecoder.peekHeader, peekVarint_putVarint hfront, peekVarint_putVarint hback]
  part k hk := by
    rw [List.length_append] at hk
    by_cases hlt : k < front.length
    · have hnone := peekVarint_take_eq_none (peekVarint_putVarint hfront back) hlt
      simp [CapsuleDecoder.peekHeader, hnone]
    · have htake : (front ++ back).take k = front ++ back.take (k - front.length) := by
        rw [List.take_append, List.take_of_length_le (by omega)]
      have hwhole := peekVarint_putVarint hback []
      rw [List.append_nil] at hwhole
      have hnone := peekVarint_take_eq_none hwhole (k := k - front.length) (by omega)
      simp [CapsuleDecoder.peekHeader, htake, peekVarint_putVarint hfront, hnone]

/-- A capsule in its parts: a header and a value of the length it announces, which for a DATAGRAM
is within the bound and reads as its Context ID and payload. -/
inductive Parts (header value : List UInt8) : WireCapsule → Prop
  | datagram {contextId : ℕ} {payload : List UInt8}
      (hheader : Heads header capsuleTypeDatagram value.length)
      (hle : value.length ≤ maxDatagramCapsuleValue)
      (hvalue : CapsuleDecoder.ofValue value = .ok (.datagram contextId payload)) :
      Parts header value (.datagram contextId payload)
  | unknown {capsuleType : ℕ} (hheader : Heads header capsuleType value.length)
      (hne : capsuleType ≠ capsuleTypeDatagram) :
      Parts header value (.unknown capsuleType value)

/-- Every capsule begins with a header. -/
theorem Parts.heads {header value : List UInt8} {c : WireCapsule} (h : Parts header value c) :
    ∃ capsuleType, Heads header capsuleType value.length := by
  cases h with
  | datagram hheader hle hvalue => exact ⟨_, hheader⟩
  | unknown hheader hne => exact ⟨_, hheader⟩

/-- A varint has at most eight bytes. -/
theorem varintLen_le (value : ℕ) : varintLen value ≤ varintMaxLen := by
  rw [varintLen, varintMaxLen]
  split_ifs <;> decide

/-- An admissible capsule can be written. -/
theorem Admissible.exists_encode {c : WireCapsule} (h : c.Admissible) :
    ∃ bytes, c.encode = some bytes := by
  have put : ∀ value ≤ varintMax, ∃ bytes, putVarint value = some bytes := fun value hle =>
    Option.isSome_iff_exists.mp ((putVarint_isSome_iff value).mpr hle)
  cases c with
  | datagram contextId payload =>
      obtain ⟨hcontext, hpayload⟩ := h
      have hlen := varintLen_le contextId
      rw [varintMaxLen] at hlen
      rw [maxUdpPayload] at hpayload
      obtain ⟨kind, hkind⟩ := put capsuleTypeDatagram (by decide)
      obtain ⟨length, hlength⟩ := put (varintLen contextId + payload.length)
        (by rw [varintMax]; omega)
      obtain ⟨context, hcontext⟩ := put contextId hcontext
      exact ⟨kind ++ length ++ context ++ payload, by
        simp [encode, encodeDatagram, hkind, hlength, hcontext]⟩
  | unknown capsuleType value =>
      obtain ⟨hkind, -, hlength⟩ := h
      obtain ⟨kind, hkind⟩ := put capsuleType hkind
      obtain ⟨length, hlength⟩ := put value.length hlength
      exact ⟨kind ++ length ++ value, by simp [encode, hkind, hlength]⟩

/-- **What a written capsule is made of.** -/
theorem Admissible.parts {c : WireCapsule} (h : c.Admissible) {bytes : List UInt8}
    (hbytes : c.encode = some bytes) :
    ∃ header value, bytes = header ++ value ∧ Parts header value c := by
  cases c with
  | datagram contextId payload =>
      simp only [encode, encodeDatagram, bind, Option.bind_eq_some_iff, pure,
        Option.some.injEq] at hbytes
      obtain ⟨kind, hkind, length, hlength, context, hcontext, rfl⟩ := hbytes
      have hlen : (context ++ payload).length = varintLen contextId + payload.length := by
        rw [List.length_append, length_putVarint hcontext]
      refine ⟨kind ++ length, context ++ payload, by simp, .datagram ?_ ?_ ?_⟩
      · rw [hlen]
        exact heads_of_putVarint hkind hlength
      · have hle := varintLen_le contextId
        have hpayload : payload.length ≤ maxUdpPayload := h.2
        rw [varintMaxLen] at hle
        rw [hlen, maxDatagramCapsuleValue]
        omega
      · have htake : takeVarint (context ++ payload) = some (contextId, payload) := by
          simp [takeVarint, peekVarint_putVarint hcontext]
        simp only [CapsuleDecoder.ofValue, htake]
  | unknown capsuleType value =>
      simp only [encode, bind, Option.bind_eq_some_iff, pure, Option.some.injEq] at hbytes
      obtain ⟨kind, hkind, length, hlength, rfl⟩ := hbytes
      exact ⟨kind ++ length, value, rfl, .unknown (heads_of_putVarint hkind hlength) h.2.1⟩

/-! ### One capsule -/

open CapsuleDecoder

/-- The header of a DATAGRAM leads to its value. -/
theorem drain_datagram {header : List UInt8} {length : ℕ}
    (h : Heads header capsuleTypeDatagram length) (hle : length ≤ maxDatagramCapsuleValue)
    (rest : List UInt8) :
    loop.drain (new.push (header ++ rest)) = loop.drain ⟨rest, .value length⟩ := by
  have hpass : loop.pass (new.push (header ++ rest)) = .again ⟨rest, .value length⟩ := by
    refine (pass_header (d := new.push (header ++ rest)) rfl (h.whole rest)).trans ?_
    rw [if_pos rfl, if_neg (Nat.not_lt.mpr hle)]
    simp [new, push]
  exact Loop.drain_of_again hpass

/-- The header of any other capsule leads to its value being discarded. -/
theorem drain_unknown {header : List UInt8} {capsuleType length : ℕ}
    (h : Heads header capsuleType length) (hne : capsuleType ≠ capsuleTypeDatagram)
    (rest : List UInt8) :
    loop.drain (new.push (header ++ rest)) = loop.drain ⟨rest, .skip length⟩ := by
  have hpass : loop.pass (new.push (header ++ rest)) = .again ⟨rest, .skip length⟩ := by
    refine (pass_header (d := new.push (header ++ rest)) rfl (h.whole rest)).trans ?_
    rw [if_neg hne]
    simp [new, push]
  exact Loop.drain_of_again hpass

/-- A value that is all there is discarded, an empty one too. -/
theorem drain_skip (value rest : List UInt8) :
    loop.drain ⟨value ++ rest, .skip value.length⟩ = loop.drain (new.push rest) := by
  have hdone : loop.pass ⟨rest, .skip 0⟩ = .again (new.push rest) :=
    pass_skip_zero (d := ⟨rest, .skip 0⟩) rfl
  by_cases hvalue : value = []
  · subst hvalue
    exact Loop.drain_of_again hdone
  · have hzero : value.length ≠ 0 := by simpa using hvalue
    have hmore : loop.pass ⟨value ++ rest, .skip value.length⟩ = .again ⟨rest, .skip 0⟩ := by
      have hne : value ++ rest ≠ [] := by simp [hvalue]
      refine (pass_skip (d := ⟨value ++ rest, .skip value.length⟩) rfl hzero hne).trans ?_
      have hmin : min value.length (value ++ rest).length = value.length := by
        rw [List.length_append]
        omega
      rw [hmin, List.drop_left, Nat.sub_self]
    rw [Loop.drain_of_again hmore, Loop.drain_of_again hdone]

/-- A value that is not all there leaves the decoder inside the capsule. -/
theorem drain_skip_part {part : List UInt8} {length : ℕ} (h : part.length < length) :
    (loop.drain ⟨part, .skip length⟩).2 = ⟨[], .skip (length - part.length)⟩ := by
  have hwait : loop.pass ⟨[], .skip (length - part.length)⟩ = .wait :=
    pass_skip_nil (d := ⟨[], .skip (length - part.length)⟩) rfl (by omega) rfl
  by_cases hpart : part = []
  · subst hpart
    exact congrArg Prod.snd (Loop.drain_of_wait hwait)
  · have hmore : loop.pass ⟨part, .skip length⟩ = .again ⟨[], .skip (length - part.length)⟩ := by
      refine (pass_skip (d := ⟨part, .skip length⟩) rfl (by omega) hpart).trans ?_
      rw [Nat.min_eq_right (Nat.le_of_lt h), List.drop_length]
    rw [Loop.drain_of_again hmore, Loop.drain_of_wait hwait]

/-- Within a skipped value there is no boundary. -/
theorem atCapsuleBoundary_skip {buffer : List UInt8} {remaining : ℕ} (h : remaining ≠ 0) :
    atCapsuleBoundary ⟨buffer, .skip remaining⟩ = false := by
  obtain ⟨n, rfl⟩ := Nat.exists_eq_succ_of_ne_zero h
  rfl

/-- **A written capsule is read back**, and what follows it as if it came first. -/
theorem Admissible.drain_append {c : WireCapsule} (h : c.Admissible) {bytes : List UInt8}
    (hbytes : c.encode = some bytes) (rest : List UInt8) :
    loop.drain (new.push (bytes ++ rest)) =
      (c.read.map .ok ++ (loop.drain (new.push rest)).1, (loop.drain (new.push rest)).2) := by
  obtain ⟨header, value, rfl, hparts⟩ := h.parts hbytes
  rw [List.append_assoc]
  cases hparts with
  | @datagram contextId payload hheader hle hvalue =>
      have hemit : loop.pass ⟨value ++ rest, .value value.length⟩ =
          .emit (.ok (.datagram contextId payload)) (new.push rest) := by
        refine (pass_value (d := ⟨value ++ rest, .value value.length⟩) rfl (by simp)).trans ?_
        rw [List.take_left, List.drop_left, hvalue]
        rfl
      rw [drain_datagram hheader hle, Loop.drain_of_emit hemit]
      rfl
  | unknown hheader hne =>
      rw [drain_unknown hheader hne, drain_skip]
      rfl

/-- **A capsule that is not all there** leaves the decoder off a boundary. -/
theorem Admissible.drain_part {c : WireCapsule} (h : c.Admissible) {front back : List UInt8}
    (hbytes : c.encode = some (front ++ back)) (hfront : front ≠ []) (hback : back ≠ []) :
    (loop.drain (new.push front)).2.atCapsuleBoundary = false := by
  obtain ⟨header, value, heq, hparts⟩ := h.parts hbytes
  have hpos := List.length_pos_iff.mpr hback
  by_cases hlt : front.length < header.length
  · -- the header itself is cut
    obtain ⟨capsuleType, hheads⟩ := hparts.heads
    have hfront' : header.take front.length = front := by
      have htake := congrArg (List.take front.length) heq
      rw [List.take_left, List.take_append_of_le_length (Nat.le_of_lt hlt)] at htake
      exact htake.symm
    have hwait : loop.pass (new.push front) = .wait := by
      have hnone := hheads.part _ hlt
      rw [hfront'] at hnone
      exact pass_header_none (d := new.push front) rfl hnone
    rw [Loop.drain_of_wait hwait]
    simp [atCapsuleBoundary, push, new, hfront]
  · -- the value is cut
    obtain ⟨part, rfl⟩ : header <+: front :=
      List.prefix_of_prefix_length_le ⟨_, heq.symm⟩ (List.prefix_append _ _) (by omega)
    rw [List.append_assoc, List.append_cancel_left_eq] at heq
    have hshort : part.length < value.length := by
      rw [← heq, List.length_append]
      omega
    cases hparts with
    | datagram hheader hle hvalue =>
        have hwait : loop.pass ⟨part, .value value.length⟩ = .wait :=
          pass_value_wait (d := ⟨part, .value value.length⟩) rfl hshort
        rw [drain_datagram hheader hle, Loop.drain_of_wait hwait]
        rfl
    | unknown hheader hne =>
        rw [drain_unknown hheader hne, drain_skip_part hshort]
        exact atCapsuleBoundary_skip (by omega)

/-! ### Sequences -/

/-- A written sequence is read back whole. -/
theorem drain_encodeAll {capsules : List WireCapsule} (hadm : ∀ c ∈ capsules, c.Admissible)
    {wire : List UInt8} (hwire : encodeAll encode capsules = some wire) :
    loop.drain (new.push wire) = ((capsules.flatMap read).map .ok, new) := by
  induction capsules generalizing wire with
  | nil =>
      cases hwire
      exact Loop.drain_of_wait pass_new
  | cons c capsules ih =>
      obtain ⟨head, tail, hhead, htail, rfl⟩ := encodeAll_cons_eq_some.mp hwire
      rw [(hadm c List.mem_cons_self).drain_append hhead,
        ih (fun d hd => hadm d (List.mem_cons_of_mem c hd)) htail, List.flatMap_cons,
        List.map_append]

/-- A capsule takes at least a byte. -/
theorem Admissible.encode_ne_nil {c : WireCapsule} (h : c.Admissible) {bytes : List UInt8}
    (hbytes : c.encode = some bytes) : bytes ≠ [] := by
  obtain ⟨header, value, rfl, hparts⟩ := h.parts hbytes
  obtain ⟨capsuleType, hheads⟩ := hparts.heads
  rintro hnil
  have hwhole := hheads.whole value
  rw [hnil] at hwhole
  cases hwhole

/-- After a front of a written sequence the decoder is at a boundary exactly between two
capsules. -/
theorem atCapsuleBoundary_front {capsules : List WireCapsule}
    (hadm : ∀ c ∈ capsules, c.Admissible) {front back : List UInt8}
    (hwire : encodeAll encode capsules = some (front ++ back)) :
    (loop.drain (new.push front)).2.atCapsuleBoundary = true ↔ Between encode capsules front := by
  refine front_induction (motive := fun capsules front =>
    (∀ c ∈ capsules, c.Admissible) → ((loop.drain (new.push front)).2.atCapsuleBoundary = true ↔
      Between encode capsules front)) ?_ ?_ ?_ hwire hadm
  · intro capsules _
    have hdrain : loop.drain (new.push []) = ([], new) := Loop.drain_of_wait pass_new
    rw [hdrain]
    exact iff_of_true rfl between_nil
  · intro c capsules front back hbytes hfront hback hadm
    rw [(hadm c List.mem_cons_self).drain_part hbytes hfront hback]
    exact iff_of_false Bool.false_ne_true (not_between_of_part hbytes hfront hback)
  · intro c capsules bytes front hbytes ih hadm
    have hc := hadm c List.mem_cons_self
    rw [hc.drain_append hbytes, between_cons_append hbytes (hc.encode_ne_nil hbytes)]
    exact ih fun d hd => hadm d (List.mem_cons_of_mem c hd)

end WireCapsule

/-- **Capsules written are capsules read.** Let DATAGRAM capsules that UDP can carry and capsules
of any other type be written one after the other. However the stream is cut, decoding it returns
the DATAGRAM capsules in order, with what was written and without an error, and ends between
capsules; and after any front of it the decoder is between capsules exactly when the front ends
between two of them. -/
theorem decode_encode_capsules {capsules : List WireCapsule}
    (hadm : ∀ c ∈ capsules, c.Admissible) :
    ∃ wire, encodeAll WireCapsule.encode capsules = some wire ∧
      (∀ chunks : List (List UInt8), chunks.flatten = wire →
        (CapsuleDecoder.new.decode chunks).1 = (capsules.flatMap WireCapsule.read).map .ok ∧
        (CapsuleDecoder.new.decode chunks).2.atCapsuleBoundary = true) ∧
      ∀ (chunks : List (List UInt8)) (back : List UInt8), chunks.flatten ++ back = wire →
        ((CapsuleDecoder.new.decode chunks).2.atCapsuleBoundary = true ↔
          Between WireCapsule.encode capsules chunks.flatten) := by
  obtain ⟨wire, hwire⟩ := exists_encodeAll fun c hc => (hadm c hc).exists_encode
  refine ⟨wire, hwire, ?_, ?_⟩
  · rintro chunks rfl
    rw [CapsuleDecoder.decode_eq, WireCapsule.drain_encodeAll hadm hwire]
    exact ⟨rfl, rfl⟩
  · rintro chunks back rfl
    rw [CapsuleDecoder.decode_eq]
    exact WireCapsule.atCapsuleBoundary_front hadm hwire

/-- An empty capsule of type 5 and then a datagram in context 2 with payload `ff`. -/
theorem decode_encode_capsules_two :
    ∃ wire, encodeAll WireCapsule.encode [.unknown 5 [], .datagram 2 [0xff]] = some wire ∧
      (∀ chunks : List (List UInt8), chunks.flatten = wire →
        (CapsuleDecoder.new.decode chunks).1 =
          ([.unknown 5 [], .datagram 2 [0xff]].flatMap WireCapsule.read).map .ok ∧
        (CapsuleDecoder.new.decode chunks).2.atCapsuleBoundary = true) ∧
      ∀ (chunks : List (List UInt8)) (back : List UInt8), chunks.flatten ++ back = wire →
        ((CapsuleDecoder.new.decode chunks).2.atCapsuleBoundary = true ↔
          Between WireCapsule.encode [.unknown 5 [], .datagram 2 [0xff]] chunks.flatten) :=
  decode_encode_capsules (List.forall_mem_cons.mpr ⟨by decide, List.forall_mem_cons.mpr
    ⟨by decide, List.forall_mem_nil _⟩⟩)

end Volto
