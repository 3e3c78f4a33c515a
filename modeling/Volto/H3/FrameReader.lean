import Volto.H3.FrameChunks

/-!
# The Frame Reader

`FrameReader` is a `FrameDecoder` wired to a QUIC receive stream. Its `next` asks the decoder
for an item, feeds it another chunk when it has none, and judges the end of the stream: one
that ends part-way through a frame is a connection error.

The receive stream is the transport's, so it is modelled by what it will yield: the chunks
still to come, and then the finish or a read error `ε` of the transport.

## Main results

* `reads_iff`: reading a stream to its end yields the items of the decoder's run over the
  stream's chunks, then the decoder's violation, the truncation, or the end.
-/

namespace Volto

/-- What is still to come of a QUIC receive stream: chunks in order, then the peer's finish,
or the transport's error. -/
structure RecvStream (ε : Type) where
  chunks : List (List UInt8)
  failure : Option ε

/-- Why a read failed: the peer broke a rule, or the transport gave up. -/
inductive ReadError (ε : Type)
  | violation (violation : Violation)
  | transport (error : ε)

/-- A decoder wired to a receive stream. -/
structure FrameReader (ε : Type) where
  recv : RecvStream ε
  decoder : FrameDecoder
  /-- Set once the peer has finished its sending side. -/
  finished : Bool

namespace FrameReader

variable {ε : Type}

/-- A reader for a stream of the given kind. -/
def withKind (recv : RecvStream ε) (stream : StreamKind) : FrameReader ε :=
  ⟨recv, FrameDecoder.new stream, false⟩

/-- A stream that ends part-way through a frame. -/
def endedMidFrame : Violation :=
  Violation.connection Code.h3FrameError "the stream ended part-way through a frame"

/-- What one call of `next` returns, with the reader and the budget it leaves. -/
abbrev Read (ε : Type) := Except (ReadError ε) (Option Item) × FrameReader ε × BufferBudget

/-- The loop of `next` over the chunks still to come. -/
def nextLoop (failure : Option ε) (finished : Bool) :
    List (List UInt8) → FrameDecoder → BufferBudget → Read ε
  | chunks, decoder, budget =>
      match decoder.nextItem budget with
      | (.error violation, decoder, budget) =>
          (.error (.violation violation), ⟨⟨chunks, failure⟩, decoder, finished⟩, budget)
      | (.ok (some item), decoder, budget) =>
          (.ok (some item), ⟨⟨chunks, failure⟩, decoder, finished⟩, budget)
      | (.ok none, decoder, budget) =>
          if finished then
            (.ok none, ⟨⟨chunks, failure⟩, decoder, finished⟩, budget)
          else
            match chunks with
            | chunk :: chunks => nextLoop failure finished chunks (decoder.push chunk) budget
            | [] =>
                match failure with
                | some error =>
                    (.error (.transport error), ⟨⟨[], failure⟩, decoder, finished⟩, budget)
                | none =>
                    if decoder.atFrameBoundary then
                      (.ok none, ⟨⟨[], failure⟩, decoder, true⟩, budget)
                    else
                      (.error (.violation endedMidFrame), ⟨⟨[], failure⟩, decoder, true⟩, budget)

/-- Reads the next item, or `none` once the peer has finished cleanly. -/
def next (r : FrameReader ε) (budget : BufferBudget) : Read ε :=
  nextLoop r.recv.failure r.finished r.recv.chunks r.decoder budget

/-- Calling `next` until it returns no item: the items read, and the error it ended with, if
any. -/
inductive Reads : FrameReader ε → BufferBudget → List Item → Option (ReadError ε) → Prop
  | finished {r r' : FrameReader ε} {budget budget' : BufferBudget}
      (h : r.next budget = (.ok none, r', budget')) : Reads r budget [] none
  | failed {r r' : FrameReader ε} {budget budget' : BufferBudget} {error : ReadError ε}
      (h : r.next budget = (.error error, r', budget')) : Reads r budget [] (some error)
  | item {r r' : FrameReader ε} {budget budget' : BufferBudget} {item : Item} {items : List Item}
      {ending : Option (ReadError ε)} (h : r.next budget = (.ok (some item), r', budget'))
      (hrest : Reads r' budget' items ending) : Reads r budget (item :: items) ending

/-- Reading depends on what the next call does and on nothing else. -/
theorem Reads.congr {r s : FrameReader ε} {budget budget' : BufferBudget}
    (h : r.next budget = s.next budget') {items : List Item} {ending : Option (ReadError ε)}
    (hs : Reads s budget' items ending) : Reads r budget items ending := by
  cases hs with
  | finished hnext => exact .finished (h.trans hnext)
  | failed hnext => exact .failed (h.trans hnext)
  | item hnext hrest => exact .item (h.trans hnext) hrest

/-- Reading is deterministic. -/
theorem Reads.unique {r : FrameReader ε} {budget : BufferBudget} {items items' : List Item}
    {ending ending' : Option (ReadError ε)} (h : Reads r budget items ending)
    (h' : Reads r budget items' ending') : items = items' ∧ ending = ending' := by
  induction h generalizing items' ending' with
  | finished hnext =>
      cases h' with
      | finished => exact ⟨rfl, rfl⟩
      | failed hnext' => cases hnext.symm.trans hnext'
      | item hnext' => cases hnext.symm.trans hnext'
  | failed hnext =>
      cases h' with
      | finished hnext' => cases hnext.symm.trans hnext'
      | failed hnext' =>
          cases hnext.symm.trans hnext'
          exact ⟨rfl, rfl⟩
      | item hnext' => cases hnext.symm.trans hnext'
  | item hnext hrest ih =>
      cases h' with
      | finished hnext' => cases hnext.symm.trans hnext'
      | failed hnext' => cases hnext.symm.trans hnext'
      | item hnext' hrest' =>
          cases hnext.symm.trans hnext'
          obtain ⟨rfl, rfl⟩ := ih hrest'
          exact ⟨rfl, rfl⟩

/-! ### Reading is running the decoder -/

open Incremental

/-- How reading ends, given how the run over all the chunks went: with its violation, with
the transport's error, in the middle of a frame, or cleanly. -/
def ending (failure : Option ε)
    (o : Outcome (FrameDecoder × BufferBudget) Item Violation) : Option (ReadError ε) :=
  match o.error with
  | some violation => some (.violation violation)
  | none =>
      match failure with
      | some error => some (.transport error)
      | none =>
          if o.state.1.atFrameBoundary then none else some (.violation endedMidFrame)

/-- What is left to do for a decoder with a chunk in hand and more to come. -/
def remaining (chunks : List (List UInt8)) (d : FrameDecoder) (budget : BufferBudget) :
    Outcome (FrameDecoder × BufferBudget) Item Violation :=
  (d.drain budget).andThen fun s => feedAll FrameDecoder.pushDrain s chunks

/-- The decoder has asked for more: the next chunk is pushed, or the end is judged. -/
theorem reads_wait {failure : Option ε} {chunks : List (List UInt8)}
    (ih : ∀ chunk rest, chunks = chunk :: rest → ∀ d budget,
      Reads ⟨⟨rest, failure⟩, d, false⟩ budget (remaining rest d budget).out
        (ending failure (remaining rest d budget)))
    {d d' : FrameDecoder} {budget budget' : BufferBudget}
    (h : d.nextItem budget = (.ok none, d', budget')) :
    Reads ⟨⟨chunks, failure⟩, d, false⟩ budget
      (feedAll FrameDecoder.pushDrain (d', budget') chunks).out
      (ending failure (feedAll FrameDecoder.pushDrain (d', budget') chunks)) := by
  cases chunks with
  | cons chunk rest =>
      refine Reads.congr ?_ (ih chunk rest rfl (d'.push chunk) budget')
      simp only [next]
      rw [nextLoop]
      simp only [h, Bool.false_eq_true, if_false]
  | nil =>
      rw [feedAll_nil]
      cases failure with
      | some error =>
          have hnext : next ⟨⟨[], some error⟩, d, false⟩ budget =
              (.error (.transport error), ⟨⟨[], some error⟩, d', false⟩, budget') := by
            simp only [next, nextLoop, h, Bool.false_eq_true, if_false]
          exact .failed hnext
      | none =>
          by_cases hb : d'.atFrameBoundary = true
          · have hend : ending (ε := ε) none (Outcome.idle (d', budget')) = none := if_pos hb
            rw [hend]
            have hnext : next (⟨⟨[], none⟩, d, false⟩ : FrameReader ε) budget =
                (.ok none, ⟨⟨[], none⟩, d', true⟩, budget') := by
              simp only [next, nextLoop, h, hb, Bool.false_eq_true, if_false, if_true]
            exact .finished hnext
          · have hend : ending (ε := ε) none (Outcome.idle (d', budget')) =
                some (.violation endedMidFrame) := if_neg hb
            rw [hend]
            have hnext : next (⟨⟨[], none⟩, d, false⟩ : FrameReader ε) budget =
                (.error (.violation endedMidFrame), ⟨⟨[], none⟩, d', true⟩, budget') := by
              simp only [next, nextLoop, h, hb, Bool.false_eq_true, if_false]
            exact .failed hnext

/-- The items of the chunk in hand are read first. -/
theorem reads_drain {failure : Option ε} {chunks : List (List UInt8)}
    (ih : ∀ chunk rest, chunks = chunk :: rest → ∀ d budget,
      Reads ⟨⟨rest, failure⟩, d, false⟩ budget (remaining rest d budget).out
        (ending failure (remaining rest d budget)))
    (d : FrameDecoder) (budget : BufferBudget) :
    Reads ⟨⟨chunks, failure⟩, d, false⟩ budget (remaining chunks d budget).out
      (ending failure (remaining chunks d budget)) := by
  refine FrameDecoder.drain_induction (motive := fun d budget o =>
    Reads ⟨⟨chunks, failure⟩, d, false⟩ budget
      (o.andThen fun s => feedAll FrameDecoder.pushDrain s chunks).out
      (ending failure (o.andThen fun s => feedAll FrameDecoder.pushDrain s chunks)))
    ?_ ?_ ?_ d budget
  · intro d budget d' budget' h
    exact reads_wait ih h
  · intro d budget violation d' budget' h
    have hnext : next ⟨⟨chunks, failure⟩, d, false⟩ budget =
        (.error (.violation violation), ⟨⟨chunks, failure⟩, d', false⟩, budget') := by
      rw [next, nextLoop]
      simp only [h]
    exact .failed hnext
  · intro d budget item d' budget' rest h hrest
    have hnext : next ⟨⟨chunks, failure⟩, d, false⟩ budget =
        (.ok (some item), ⟨⟨chunks, failure⟩, d', false⟩, budget') := by
      rw [next, nextLoop]
      simp only [h]
    have hitem := Reads.item hnext hrest
    obtain ⟨out, state, _ | violation⟩ := rest <;> exact hitem

/-- **Reading yields what is left to do**, however the stream is cut. -/
theorem reads_remaining (failure : Option ε) (chunks : List (List UInt8)) (d : FrameDecoder)
    (budget : BufferBudget) :
    Reads ⟨⟨chunks, failure⟩, d, false⟩ budget (remaining chunks d budget).out
      (ending failure (remaining chunks d budget)) := by
  induction chunks generalizing d budget with
  | nil => exact reads_drain (by simp) d budget
  | cons chunk rest ih =>
      refine reads_drain ?_ d budget
      intro chunk' rest' heq d budget
      cases heq
      exact ih d budget

/-- A decoder that was handed nothing has nothing to say. -/
theorem drain_new (stream : StreamKind) :
    (FrameDecoder.new stream).drain BufferBudget.unshared =
      Outcome.idle (FrameDecoder.new stream, BufferBudget.unshared) := by
  have hnext : (FrameDecoder.new stream).nextItem BufferBudget.unshared =
      (.ok none, FrameDecoder.new stream, BufferBudget.unshared) :=
    FrameDecoder.nextItem_of_done rfl
  rw [FrameDecoder.drain]
  split
  · rename_i h
    cases hnext.symm.trans h
    rfl
  · rename_i h
    cases hnext.symm.trans h
  · rename_i h
    cases hnext.symm.trans h

/-- **Reading a stream to its end is running the decoder over its chunks** and judging the
end: there is exactly one way reading can go. -/
theorem reads_iff (recv : RecvStream ε) (stream : StreamKind) (items : List Item)
    (e : Option (ReadError ε)) :
    Reads (withKind recv stream) BufferBudget.unshared items e ↔
      items = (FrameDecoder.run stream recv.chunks).out ∧
        e = ending recv.failure (FrameDecoder.run stream recv.chunks) := by
  have hreads := reads_remaining recv.failure recv.chunks (FrameDecoder.new stream)
    BufferBudget.unshared
  rw [remaining, drain_new, Outcome.idle_andThen] at hreads
  constructor
  · intro h
    exact h.unique hreads
  · rintro ⟨rfl, rfl⟩
    exact hreads

end FrameReader

end Volto
