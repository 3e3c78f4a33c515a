import Volto.Capsule

/-!
# The Memory of the Capsule Decoder

How much `CapsuleDecoder` holds on to when it asks for more, and how long its caller's loop runs
until then. A peer chooses the lengths it declares and where it stops, so neither may depend on
them: a DATAGRAM capsule is refused before it is buffered when it is too large, and the value of
any other capsule is never buffered.

## Main results

* `Sound.pass`, `sound_run`: a value that is being buffered is never longer than the largest.
* `drainFor_eq`: draining ends, within twice as many passes as there are bytes, and two more.
* `memory_bounded`: what is left in the buffer after it.
-/

namespace Volto.CapsuleDecoder

open Resumable

/-- What the owner of a decoder does with it. -/
inductive Op
  | push (chunk : List UInt8)
  /-- A call of `next_capsule`, whatever it returns. -/
  | next
deriving DecidableEq, Repr

/-- One operation. -/
def step (d : CapsuleDecoder) : Op → CapsuleDecoder
  | .push chunk => d.push chunk
  | .next => d.nextCapsule.2

/-- A run of operations on a new decoder, in any order. -/
def run (ops : List Op) : CapsuleDecoder :=
  ops.foldl step new

/-- The least that is too long for the two varints of a header: sixteen bytes. -/
def headerBound : ℕ := 2 * varintMaxLen

/-- What a decoder that asks for more may hold. -/
def Bounded (d : CapsuleDecoder) : Prop :=
  match d.state with
  | .header => d.buffer.length < headerBound
  | .skip _ => d.buffer = []
  | .value length => d.buffer.length < length ∧ length ≤ maxDatagramCapsuleValue

/-- A value that is being buffered is one the decoder accepts. -/
def Sound (d : CapsuleDecoder) : Prop :=
  ∀ length, d.state = .value length → length ≤ maxDatagramCapsuleValue

/-! ### Soundness -/

/-- A decoder before a header is sound. -/
theorem sound_header (buffer : List UInt8) : Sound ⟨buffer, .header⟩ := by
  intro length h
  cases h

/-- A decoder within a skipped value is sound. -/
theorem sound_skip (buffer : List UInt8) (remaining : ℕ) : Sound ⟨buffer, .skip remaining⟩ := by
  intro length h
  cases h

/-- The states a pass can lead to. -/
def Leads (p : Pass CapsuleDecoder (Except CapsuleError Capsule)) (d' : CapsuleDecoder) : Prop :=
  p = .again d' ∨ ∃ out, p = .emit out d'

/-- **A pass keeps a decoder sound**: the only way into a value is past the check of its length. -/
theorem Sound.pass {d d' : CapsuleDecoder} (h : Leads d.pass d') : Sound d' := by
  have hpass := d.passes
  obtain h | ⟨out, h⟩ := h
  · rw [h] at hpass
    cases hpass with
    | skipDone hs => exact sound_header _
    | skipMore hs hr hb => exact sound_skip _ _
    | enterSkip hs hp hne => exact sound_skip _ _
    | enterValue hs hp hle =>
        intro length hlength
        cases hlength
        exact hle
  · rw [h] at hpass
    cases hpass with
    | tooLarge hs hp hlt => exact sound_header _
    | whole hs hle => exact sound_header _

/-- More bytes leave a decoder sound. -/
theorem Sound.push {d : CapsuleDecoder} (h : Sound d) (chunk : List UInt8) :
    Sound (d.push chunk) :=
  h

/-- So does a call of `next_capsule`. -/
theorem Sound.nextCapsule {d : CapsuleDecoder} (h : Sound d) : Sound d.nextCapsule.2 := by
  refine Loop.next_induction (L := loop) (motive := fun s r => Sound s → Sound r.2)
    (fun s _ hs => hs) (fun s s' r hpass ih _ => ?_) (fun s s' out hpass _ => ?_) d h
  · exact ih (Sound.pass (.inl hpass))
  · exact Sound.pass (.inr ⟨out, hpass⟩)

/-- **Every decoder in use is sound.** -/
theorem sound_run (ops : List Op) : Sound (run ops) := by
  have key : ∀ d, Sound d → Sound (ops.foldl step d) := by
    induction ops with
    | nil => exact fun d hd => hd
    | cons op ops ih =>
        intro d hd
        refine ih _ ?_
        obtain chunk | - := op
        · exact hd.push chunk
        · exact hd.nextCapsule
  exact key new (sound_header [])

/-! ### Waiting -/

/-- A varint that is not all there is shorter than the longest. -/
theorem length_lt_of_peekVarint_eq_none {buffer : List UInt8} (h : peekVarint buffer = none) :
    buffer.length < varintMaxLen := by
  obtain - | ⟨first, rest⟩ := buffer
  · decide
  rw [peekVarint_cons] at h
  split_ifs at h with hlt
  have hcases := declaredLen_cases first
  simp only [List.length_cons, varintMaxLen]
  omega

/-- A header that is not all there is shorter than two varints. -/
theorem length_lt_of_peekHeader_eq_none {buffer : List UInt8} (h : peekHeader buffer = none) :
    buffer.length < headerBound := by
  obtain hkind | ⟨⟨kind, typeLen⟩, hkind⟩ := (peekVarint buffer).eq_none_or_eq_some
  · have hlt := length_lt_of_peekVarint_eq_none hkind
    rw [headerBound]
    omega
  · have hvalue : peekVarint (buffer.drop typeLen) = none := by
      rcases hvalue : peekVarint (buffer.drop typeLen) with - | r
      · rfl
      · simp [peekHeader, hkind, hvalue] at h
    have hlt := length_lt_of_peekVarint_eq_none hvalue
    have hbounds := peekVarint_bounds hkind
    rw [List.length_drop] at hlt
    rw [headerBound]
    omega

/-- **A sound decoder that waits holds less than one capsule.** -/
theorem Sound.bounded {d : CapsuleDecoder} (h : Sound d) (hwait : d.pass = .wait) : Bounded d := by
  have hpass := d.passes
  rw [hwait] at hpass
  cases hpass with
  | skipWait hs hr hb =>
      rw [Bounded, hs]
      exact hb
  | headerWait hs hp =>
      rw [Bounded, hs]
      exact length_lt_of_peekHeader_eq_none hp
  | valueWait hs hlt =>
      rw [Bounded, hs]
      exact ⟨hlt, h _ hs⟩

/-! ### Draining -/

/-- What a caller has after it called `next_capsule` until it returned nothing or an error: the
capsules, the error if there was one, and the decoder. -/
structure Drained where
  capsules : List Capsule
  stop : Option CapsuleError
  decoder : CapsuleDecoder
deriving DecidableEq, Repr

/-- The calls of `next_capsule` up to one that returns nothing or an error. -/
inductive Drains : CapsuleDecoder → Drained → Prop
  | nothing {d d' : CapsuleDecoder} (h : d.nextCapsule = (none, d')) : Drains d ⟨[], none, d'⟩
  | refused {d d' : CapsuleDecoder} {e : CapsuleError} (h : d.nextCapsule = (some (.error e), d')) :
      Drains d ⟨[], some e, d'⟩
  | capsule {d d' : CapsuleDecoder} {capsule : Capsule} {r : Drained}
      (h : d.nextCapsule = (some (.ok capsule), d')) (hrest : Drains d' r) :
      Drains d { r with capsules := capsule :: r.capsules }

/-- The same, pass by pass, with a bound on how many passes through the loop of `next_capsule` all
the calls make together; `none` when they are not enough. -/
def drainFor : ℕ → CapsuleDecoder → Option Drained
  | 0, _ => none
  | passes + 1, d =>
      match d.pass with
      | .wait => some ⟨[], none, d⟩
      | .again d' => drainFor passes d'
      | .emit (.error e) d' => some ⟨[], some e, d'⟩
      | .emit (.ok capsule) d' =>
          (drainFor passes d').map fun r => { r with capsules := capsule :: r.capsules }

/-- A pass that goes round again is part of the first call. -/
theorem Drains.of_again {d d' : CapsuleDecoder} {r : Drained} (hpass : d.pass = .again d')
    (h : Drains d' r) : Drains d r := by
  have hnext : d.nextCapsule = d'.nextCapsule := Loop.next_of_again (L := loop) hpass
  cases h with
  | nothing h => exact .nothing (hnext.trans h)
  | refused h => exact .refused (hnext.trans h)
  | capsule h hrest => exact .capsule (hnext.trans h) hrest

/-- **Draining ends**, within as many passes as the decoder weighs, and one. -/
theorem drainFor_eq {passes : ℕ} (d : CapsuleDecoder) (h : d.weight < passes) :
    ∃ r, drainFor passes d = some r ∧ Drains d r := by
  induction passes generalizing d with
  | zero => exact absurd h (Nat.not_lt_zero _)
  | succ passes ih =>
      rw [drainFor]
      rcases hpass : d.pass with - | d' | ⟨out, d'⟩
      · exact ⟨_, rfl, .nothing (Loop.next_of_wait (L := loop) hpass)⟩
      · have hlt : d'.weight < d.weight := loop.again_lt hpass
        obtain ⟨r, hr, hdrains⟩ := ih d' (by omega)
        exact ⟨r, hr, hdrains.of_again hpass⟩
      · have hlt : d'.weight < d.weight := loop.emit_lt hpass
        have hnext : d.nextCapsule = (some out, d') := Loop.next_of_emit (L := loop) hpass
        obtain e | capsule := out
        · exact ⟨_, rfl, .refused hnext⟩
        · obtain ⟨r, hr, hdrains⟩ := ih d' (by omega)
          refine ⟨{ r with capsules := capsule :: r.capsules }, ?_, .capsule hnext hdrains⟩
          simp only [hr, Option.map_some]

/-- A decoder that was drained to nothing waits, and is still sound. -/
theorem Drains.bounded {d : CapsuleDecoder} {r : Drained} (h : Drains d r) (hd : Sound d)
    (hstop : r.stop = none) : Bounded r.decoder := by
  induction h with
  | nothing h =>
      have hsound := hd.nextCapsule
      rw [h] at hsound
      exact hsound.bounded (Loop.pass_of_next_none h)
  | refused h => cases hstop
  | capsule h hrest ih =>
      have hsound := hd.nextCapsule
      rw [h] at hsound
      exact ih hsound hstop

/-- **The decoder holds less than one capsule** whenever it asks for more, whatever was pushed into
it before and however it was called; and draining it ends within a number of passes that its
buffer bounds, with nothing left or with an error. -/
theorem memory_bounded :
    (∀ (ops : List Op) (d : CapsuleDecoder), (run ops).nextCapsule = (none, d) → Bounded d) ∧
    (∀ (ops : List Op) (r : Drained), Drains (run ops) r → r.stop = none → Bounded r.decoder) ∧
    ∀ d : CapsuleDecoder, ∃ r, drainFor (2 * d.buffer.length + 2) d = some r ∧ Drains d r := by
  refine ⟨fun ops d h => ?_, fun ops r h => h.bounded (sound_run ops), fun d => drainFor_eq d ?_⟩
  · exact (Drains.nothing h).bounded (sound_run ops) rfl
  · rw [weight]
    split_ifs <;> omega

end Volto.CapsuleDecoder
