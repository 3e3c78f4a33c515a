import Volto.H3.FrameBudget
import Volto.H3.FrameReader

/-!
# A Reader Among Others

The request streams of a connection charge one `BufferBudget`, and the other streams run whenever
this one does. What they hold when this stream's decoder is called is an argument of the call
(`Others`), so the counter a call meets is what the others hold and this decoder's own charge.

A reader between two calls of `next` is `At` a state of the byte machine, and `unread` are the bytes
that it has not consumed. A call takes a front of them that the machine reads as the item that is
returned.

## Main results

* `FrameDecoder.nextItem_among`: a call among others is the call alone, or is refused room.
* `FrameDecoder.nextItem_consumes`: a call that returns an item consumes the bytes of that item.
* `FrameReader.nextAmong_spec`: what one call of `next` takes off the stream.
-/

namespace Volto

open Incremental

namespace FrameDecoder

open FrameMachine (feed)

/-- What a pass did to a decoder of its own budget, where the others hold `others`. -/
def Iteration.among (others : ℕ) : Iteration → Iteration
  | .again d budget => .again d ⟨others + budget.held⟩
  | .done result d budget => .done result d ⟨others + budget.held⟩

/-- A call of `next_item` while the other streams hold `others` bytes of the budget. -/
def nextItemAmong (d : FrameDecoder) (others : ℕ) :
    Except Violation (Option Item) × FrameDecoder :=
  let (result, d, _) := d.nextItem ⟨others + d.charged⟩
  (result, d)

/-- A result that says the budget had no room. -/
def Refused (result : Except Violation (Option Item)) : Prop :=
  ∃ violation, result = .error violation ∧ violation.isFieldSectionTooLarge = true ∧
    violation.isConnectionError = false

/-- A charge among others: there is room for it, or it is refused. -/
theorem charge_among (others : ℕ) {length : ℕ} (hle : length ≤ maxBufferedFrame) :
    BufferBudget.charge ⟨others⟩ length = .ok ⟨others + length⟩ ∨
      headersBufferBudget < others + maxBufferedFrame ∧
        ∃ violation, BufferBudget.charge ⟨others⟩ length = .error violation ∧
          violation.isFieldSectionTooLarge = true ∧ violation.isConnectionError = false := by
  cases hcharge : BufferBudget.charge ⟨others⟩ length with
  | ok budget =>
      obtain ⟨hheld, -⟩ := BufferBudget.charge_eq_ok hcharge
      left
      rw [show budget = ⟨others + length⟩ from congrArg BufferBudget.mk hheld]
  | error violation =>
      obtain ⟨hfull, -⟩ := BufferBudget.charge_eq_error hcharge
      simp only [BufferBudget.charge] at hcharge
      split_ifs at hcharge
      cases hcharge
      exact Or.inr ⟨by simp only at hfull; omega, _, rfl, rfl, rfl⟩

/-- A decoder may find no room: not on a tunnel, where nothing is buffered, and only if the others
leave less than a frame. -/
def Crowded (d : FrameDecoder) (others : ℕ) : Prop :=
  d.stream ≠ .tunnel ∧ headersBufferBudget < others + maxBufferedFrame

/-- **A pass among others** is the pass alone, unless the frame it announces is refused room. -/
theorem iterate_among {d : FrameDecoder} {budget : BufferBudget} (h : d.Sound budget)
    (others : ℕ) :
    d.iterate ⟨others + budget.held⟩ = (d.iterate budget).among others ∨
      d.Crowded others ∧
        ∃ result d', d.iterate ⟨others + budget.held⟩ =
          .done result d' ⟨others + budget.held⟩ ∧ Refused result := by
  cases hs : d.state with
  | header =>
      have hzero : budget.held = 0 := by
        rw [h.held_eq]
        exact h.charged_zero (by simp [hs])
      obtain ⟨result, d', hd'⟩ : ∃ result d', d.takeFrameHeader = (result, d') := ⟨_, _, rfl⟩
      have hstream : d'.stream = d.stream := by
        rw [show d' = d.takeFrameHeader.2 by rw [hd']]
        rfl
      cases result with
      | none => exact Or.inl (by simp only [iterate, hs, hd', Iteration.among])
      | some header =>
          obtain ⟨kind, length⟩ := header
          cases hb : Frame.begin d'.stream kind length with
          | error violation =>
              exact Or.inl (by simp only [iterate, hs, hd', hb, Iteration.among])
          | ok state =>
              cases state with
              | header => exact Or.inl (by simp only [iterate, hs, hd', hb, Iteration.among])
              | data remaining =>
                  exact Or.inl (by simp only [iterate, hs, hd', hb, Iteration.among])
              | skipping kind remaining =>
                  exact Or.inl (by simp only [iterate, hs, hd', hb, Iteration.among])
              | buffering kind remaining =>
                  obtain ⟨rfl, rfl, hle, -, hmis⟩ := Frame.begin_eq_buffering hb
                  have htunnel : d.stream ≠ .tunnel := by
                    intro heq
                    rw [hstream, heq, Frame.misplaced] at hmis
                    cases kind <;> cases hmis
                  have halone : budget.charge remaining = .ok ⟨remaining⟩ := h.charge hs hle
                  simp only [hzero, Nat.add_zero]
                  rcases charge_among others hle with hcharge | ⟨hfull, violation, hcharge, hv⟩
                  · left
                    simp only [iterate, hs, hd', hb, halone, hcharge, Iteration.among]
                  · refine Or.inr ⟨⟨htunnel, hfull⟩, .error violation, d', ?_, violation, rfl, hv⟩
                    simp only [iterate, hs, hd', hb, hcharge]
  | data remaining =>
      left
      simp only [iterate, hs]
      split_ifs <;> rfl
  | buffering kind remaining =>
      left
      have hrelease : BufferBudget.release ⟨others + budget.held⟩ d.charged =
          ⟨others + (budget.release d.charged).held⟩ := by
        simp only [BufferBudget.release, h.held_eq]
        split_ifs with hpos
        · simp
        · rw [h.held_eq]
      simp only [iterate, hs]
      split_ifs with hlt
      · rfl
      · simp only [FrameDecoder.release, hrelease, Iteration.among]
  | skipping kind remaining =>
      left
      simp only [iterate, hs]
      split_ifs
      · split <;> rfl
      · rfl

/-- **A call among others** is the call alone, or is refused room. -/
theorem nextItem_among (d : FrameDecoder) (budget : BufferBudget) (h : d.Sound budget)
    (others : ℕ) :
    d.nextItem ⟨others + budget.held⟩ =
        ((d.nextItem budget).1, (d.nextItem budget).2.1,
          ⟨others + (d.nextItem budget).2.2.held⟩) ∨
      d.Crowded others ∧ Refused (d.nextItem ⟨others + budget.held⟩).1 := by
  induction hw : d.weight using Nat.strong_induction_on generalizing d budget with
  | _ w ih =>
      have hpass := iterate_pass d budget
      rcases iterate_among h others with hiter | ⟨hfull, result, d', hiter, hrefused⟩
      · cases halone : d.iterate budget with
        | done result d' budget' =>
            rw [halone] at hiter
            left
            rw [nextItem_of_done hiter, nextItem_of_done halone]
        | again d' budget' =>
            rw [halone] at hiter hpass
            rw [nextItem_of_again hiter, nextItem_of_again halone]
            rw [Crowded, ← hpass.of_again.1]
            exact ih _ (hw ▸ hpass.weight_lt_of_again) d' budget' (h.again hpass) rfl
      · right
        rw [nextItem_of_done hiter]
        exact ⟨hfull, hrefused⟩

/-! ### What a call consumes -/

/-- Counting a skipped frame does not look at the chunk. -/
theorem countSkip_push (d : FrameDecoder) (chunk : List UInt8) :
    (d.push chunk).countSkip = (d.countSkip.1, d.countSkip.2.push chunk) := by
  by_cases hreq : d.stream = .request
  · simp only [countSkip, push, hreq, if_true]
  · simp only [countSkip, push, hreq, if_false]

/-- A pass that goes round again has used up the front of the chunk, and does the same to a chunk
that is cut further back. -/
theorem Pass.truncate_again {d d' : FrameDecoder} {budget budget' : BufferBudget}
    (hpass : Pass d budget (.again d' budget')) {more rest : List UInt8}
    (hchunk : d'.chunk = more ++ rest) :
    ∃ used, d.chunk = used ++ rest ∧
      Pass (d.push used) budget (.again (d'.push more) budget') := by
  cases hpass with
  | @announceBuffered used rest' kind length buffered budget' hs hc hp hmin hb hcharge =>
      obtain rfl : rest' = more ++ rest := hchunk
      exact ⟨used ++ more, by rw [hc, List.append_assoc],
        .announceBuffered hs rfl hp hmin hb hcharge⟩
  | @announceData used rest' kind length hs hc hp hmin hb =>
      obtain rfl : rest' = more ++ rest := hchunk
      exact ⟨used ++ more, by rw [hc, List.append_assoc], .announceData hs rfl hp hmin hb⟩
  | @announceSkipped used rest' kind length hs hc hp hmin hb =>
      obtain rfl : rest' = more ++ rest := hchunk
      exact ⟨used ++ more, by rw [hc, List.append_assoc], .announceSkipped hs rfl hp hmin hb⟩

/-- A pass that returns an item does so from what it consumes, whatever is behind it. -/
theorem Pass.truncate_done {d d' : FrameDecoder} {budget budget' : BufferBudget} {item : Item}
    (hpass : Pass d budget (.done (.ok (some item)) d' budget')) :
    ∃ used, d.chunk = used ++ d'.chunk ∧
      Pass (d.push used) budget (.done (.ok (some item)) (d'.push []) budget') := by
  generalize hresult : (Except.ok (some item) : Except Violation (Option Item)) = result at hpass
  cases hpass with
  | headerPartial hs hp => cases hresult
  | refused hs hc hp hmin hb => cases hresult
  | overBudget hs hc hp hmin hb hcharge => cases hresult
  | dataEmpty hs => exact ⟨[], rfl, .dataEmpty hs⟩
  | dataWait hs hr hc => cases hresult
  | @dataPiece remaining hs hr hc =>
      refine ⟨d.chunk.take remaining, (List.take_append_drop remaining d.chunk).symm, ?_⟩
      have hne : d.chunk.take remaining ≠ [] := by
        simp [hr, hc]
      have htake := @Pass.dataPiece (d.push (d.chunk.take remaining)) budget remaining hs hr hne
      by_cases hle : remaining ≤ d.chunk.length
      · simpa [push, List.take_take, hle] using htake
      · have hmin : min remaining d.chunk.length = d.chunk.length := by omega
        simpa [push, List.take_take, hle, hmin] using htake
  | bufferMore hs hlt => cases hresult
  | @bufferWhole kind remaining hs hle =>
      refine ⟨d.chunk.take remaining, (List.take_append_drop remaining d.chunk).symm, ?_⟩
      have htake := @Pass.bufferWhole (d.push (d.chunk.take remaining)) budget kind remaining hs
        (by simpa [push] using hle)
      simpa [push, List.take_take] using htake
  | skipMore hs hlt => cases hresult
  | @skipWhole kind remaining hs hle d' hcount =>
      obtain rfl : item = .skipped kind := by
        cases hresult
        rfl
      have hchunk : d'.chunk = d.chunk.drop remaining := by
        obtain ⟨skipped, rfl⟩ := countSkip_eq hcount
        rfl
      refine ⟨d.chunk.take remaining, by rw [hchunk, List.take_append_drop], ?_⟩
      have hpush := countSkip_push { d with chunk := d.chunk.drop remaining, state := .header } []
      rw [hcount] at hpush
      exact @Pass.skipWhole (d.push (d.chunk.take remaining)) budget kind remaining hs
        (by simpa [push] using hle) (d'.push []) (by simpa [push] using hpush)
  | skipFlood hs hle hcount => cases hresult

/-- **A call that returns an item** has consumed the bytes that stand for it, and would return the
same if there were no others. -/
theorem nextItem_consumes (d : FrameDecoder) (budget : BufferBudget) (h : d.Sound budget)
    {item : Item} (hitem : (d.nextItem budget).1 = .ok (some item)) :
    ∃ used, d.chunk = used ++ (d.nextItem budget).2.1.chunk ∧
      (d.push used).Returns (.ok (some item)) ((d.nextItem budget).2.1.push []) := by
  revert h hitem
  refine nextItem_induction
    (motive := fun d budget r => d.Sound budget → r.1 = .ok (some item) →
      ∃ used, d.chunk = used ++ r.2.1.chunk ∧
        (d.push used).Returns (.ok (some item)) (r.2.1.push [])) ?_ ?_ d budget
  · intro d budget result d' budget' hpass h hitem
    simp only at hitem
    subst hitem
    obtain ⟨used, hchunk, htruncated⟩ := hpass.truncate_done
    exact ⟨used, hchunk, htruncated.meaning_done (h.push used)⟩
  · intro d budget d' budget' r hpass ih h hitem
    obtain ⟨more, hchunk, hreturns⟩ := ih (h.again hpass) hitem
    obtain ⟨used, hchunk', htruncated⟩ := hpass.truncate_again hchunk
    refine ⟨used, hchunk', ?_⟩
    rw [Returns] at hreturns ⊢
    rw [htruncated.meaning_again (h.push used)]
    exact hreturns

/-- Whether an item is a piece of a DATA payload, which may go on after it. -/
def IsPiece (item : Item) : Prop :=
  ∃ byte bytes, item = .data (byte :: bytes)

/-- An item that is not a piece of DATA ends its frame. -/
theorem atFrameBoundary_of_item {d d' : FrameDecoder} {budget budget' : BufferBudget}
    (h : d.Sound budget) {item : Item} (hitem : ¬IsPiece item)
    (hcall : d.nextItem budget = (.ok (some item), d', budget')) : d'.atFrameBoundary = true := by
  have key := nextItem_induction
    (motive := fun d budget r => d.Sound budget → r.1 = .ok (some item) →
      r.2.1.state = .header ∧ r.2.1.header = [])
    (fun d budget result d' budget' hpass h hresult => by
      simp only at hresult
      cases hpass with
      | headerPartial hs hp => cases hresult
      | refused hs hc hp hmin hb => cases hresult
      | overBudget hs hc hp hmin hb hcharge => cases hresult
      | dataEmpty hs => exact ⟨rfl, h.header_nil (by simp [hs])⟩
      | dataWait hs hr hc => cases hresult
      | @dataPiece remaining hs hr hc =>
          obtain ⟨byte, bytes, hchunk⟩ := List.exists_cons_of_ne_nil hc
          obtain ⟨more, rfl⟩ := Nat.exists_eq_succ_of_ne_zero hr
          rw [hchunk] at hresult
          cases hresult
          exact absurd ⟨_, _, rfl⟩ hitem
      | bufferMore hs hlt => cases hresult
      | bufferWhole hs hle => exact ⟨rfl, h.header_nil (by simp [hs])⟩
      | skipMore hs hlt => cases hresult
      | skipWhole hs hle hcount =>
          obtain ⟨skipped, rfl⟩ := countSkip_eq hcount
          exact ⟨rfl, h.header_nil (by simp [hs])⟩
      | skipFlood hs hle hcount => cases hresult)
    (fun d budget d' budget' r hpass ih h => ih (h.again hpass)) d budget
  rw [hcall] at key
  obtain ⟨hs, hheader⟩ := key h rfl
  simp only at hs hheader
  simp [atFrameBoundary, hs, hheader]

/-- What a call leaves of a decoder that has settled in `m`: an item, which stands for what the
machine reports of the consumed bytes; nothing, with all of the chunk read in silence; or the
violation that the machine finds in the chunk. -/
def Leaves (d : FrameDecoder) (m : FrameMachine) (result : Except Violation (Option Item))
    (d' : FrameDecoder) : Prop :=
  match result with
  | .ok (some item) => ∃ used events m', d.chunk = used ++ d'.chunk ∧ d'.settle = Outcome.idle m' ∧
      feedAll feed m used = ⟨events, m', none⟩ ∧ item.Renders events ∧
      (¬IsPiece item → m'.position = .header [])
  | .ok none => ∃ m', d'.settle = Outcome.idle m' ∧ feedAll feed m d.chunk = Outcome.idle m'
  | .error violation => ∃ m', feedAll feed m d.chunk = ⟨[], m', some violation⟩

/-- The meaning of a settled decoder is the machine's run over its chunk. -/
theorem meaning_of_settle {d : FrameDecoder} {m : FrameMachine} (h : d.settle = Outcome.idle m) :
    d.meaning = feedAll feed m d.chunk := by
  rw [meaning, h, Outcome.idle_andThen]

/-- **A call among others** reads the front of the chunk as the machine does, unless it is refused
room. -/
theorem nextItemAmong_spec {d : FrameDecoder} {m : FrameMachine}
    (hd : Represents (d, ⟨d.charged⟩) m) (others : ℕ) :
    (d.nextItemAmong others).2.Sound ⟨(d.nextItemAmong others).2.charged⟩ ∧
        d.Leaves m (d.nextItemAmong others).1 (d.nextItemAmong others).2 ∨
      d.Crowded others ∧ Refused (d.nextItemAmong others).1 := by
  obtain ⟨hsound, hsettle⟩ := hd
  simp only at hsound hsettle
  rcases nextItem_among d ⟨d.charged⟩ hsound others with heq | hrefused
  swap
  · exact Or.inr hrefused
  left
  obtain ⟨hsound', hreturns⟩ := nextItem_returns d ⟨d.charged⟩ hsound
  have hconsumes := @nextItem_consumes d ⟨d.charged⟩ hsound
  have hboundary := @atFrameBoundary_of_item d (d.nextItem ⟨d.charged⟩).2.1 ⟨d.charged⟩
    (d.nextItem ⟨d.charged⟩).2.2 hsound
  simp only at heq
  rw [nextItemAmong, heq]
  obtain ⟨result, d', budget', hcall⟩ :
      ∃ result d' budget', d.nextItem ⟨d.charged⟩ = (result, d', budget') := ⟨_, _, _, rfl⟩
  rw [hcall] at hsound' hreturns hconsumes hboundary ⊢
  refine ⟨⟨hsound'.header_short, hsound'.header_nil, hsound'.payload_nil, hsound'.charged_zero,
    rfl⟩, ?_⟩
  rcases result with violation | _ | item
  · obtain ⟨m', step, -, rfl, hmeaning, -⟩ := hreturns
    rw [meaning_of_settle hsettle] at hmeaning
    exact ⟨m', hmeaning⟩
  · obtain ⟨m', step, hsettle', rfl, hmeaning, hchunk⟩ := hreturns
    rw [meaning_of_settle hsettle, hchunk rfl] at hmeaning
    exact ⟨m', hsettle', hmeaning⟩
  · obtain ⟨used, hchunk, m', step, hsettle', ⟨events, hrenders, rfl⟩, hmeaning, -⟩ :=
      hconsumes rfl
    rw [meaning_of_settle (d := d.push used) hsettle] at hmeaning
    refine ⟨used, events, m', hchunk, hsettle', hmeaning.trans (Outcome.andThen_idle _), hrenders,
      fun hitem => ?_⟩
    have hrep : Represents (d', budget') m' := ⟨hsound', hsettle'⟩
    exact hrep.atFrameBoundary_iff.mp (hboundary hitem rfl)

end FrameDecoder

namespace FrameMachine

/-- Entering a payload stays on the stream. -/
theorem enter_stream (m : FrameMachine) (payload : List UInt8) (state : FrameDecoder.State) :
    (m.enter payload state).state.stream = m.stream := by
  rcases state with _ | (_ | more) | ⟨kind, _ | more⟩ | ⟨kind, _ | more⟩
  · rfl
  · rfl
  · rfl
  · simp only [enter, complete]
    split <;> rfl
  · rfl
  · simp only [enter, finishSkip]
    split_ifs <;> rfl
  · rfl

/-- Reading a byte stays on the stream. -/
theorem feed_stream (m : FrameMachine) (byte : UInt8) : (m.feed byte).state.stream = m.stream := by
  rw [feed]
  rcases m.position with bytes | (_ | more) | ⟨kind, payload, _ | more⟩ | ⟨kind, _ | more⟩
  · simp only
    split
    · rfl
    · rw [announce]
      split
      · rfl
      · exact enter_stream m [] _
  · rfl
  · rfl
  · exact enter_stream m _ (.buffering kind 0)
  · rfl
  · exact enter_stream m [] (.skipping kind 0)
  · rfl

/-- Reading stays on the stream. -/
theorem feedAll_stream (m : FrameMachine) (bytes : List UInt8) :
    (feedAll feed m bytes).state.stream = m.stream := by
  induction bytes generalizing m with
  | nil => rfl
  | cons byte bytes ih =>
      rw [feedAll_cons, Outcome.andThen]
      split
      · exact feed_stream m byte
      · exact (ih _).trans (feed_stream m byte)

end FrameMachine

/-- A decoder has settled on its stream. -/
theorem FrameDecoder.stream_of_settle {d : FrameDecoder} {m : FrameMachine}
    (h : d.settle = Outcome.idle m) : m.stream = d.stream := by
  rw [settle] at h
  split_ifs at h
  · exact congrArg (fun o => o.state.stream) h.symm
  · have hstream := FrameMachine.enter_stream d.machine d.payload d.state
    rw [h] at hstream
    exact hstream

/-- What the other streams hold at each call of the decoder that is still to come. -/
abbrev Others := ℕ → ℕ

namespace Others

/-- The calls after the first one. -/
def tail (others : Others) : Others :=
  fun call => others (call + 1)

/-- Whatever the others do, there is room for one more frame. -/
def Room (others : Others) : Prop :=
  ∀ call, others call + maxBufferedFrame ≤ headersBufferBudget

/-- What the others leave later on leaves room too. -/
theorem Room.tail {others : Others} (h : others.Room) : others.tail.Room :=
  fun call => h (call + 1)

end Others

namespace FrameReader

open FrameMachine (feed)

variable {ε : Type}

/-- What one call of `next` returns, with the reader it leaves and the calls still to come. -/
abbrev ReadAmong (ε : Type) := Except (ReadError ε) (Option Item) × FrameReader ε × Others

/-- The loop of `next` over the chunks still to come, among others. -/
def nextAmongLoop (failure : Option ε) (finished : Bool) :
    List (List UInt8) → FrameDecoder → Others → ReadAmong ε
  | chunks, decoder, others =>
      match decoder.nextItemAmong (others 0) with
      | (.error violation, decoder) =>
          (.error (.violation violation), ⟨⟨chunks, failure⟩, decoder, finished⟩, others.tail)
      | (.ok (some item), decoder) =>
          (.ok (some item), ⟨⟨chunks, failure⟩, decoder, finished⟩, others.tail)
      | (.ok none, decoder) =>
          if finished then
            (.ok none, ⟨⟨chunks, failure⟩, decoder, finished⟩, others.tail)
          else
            match chunks with
            | chunk :: chunks =>
                nextAmongLoop failure finished chunks (decoder.push chunk) others.tail
            | [] =>
                match failure with
                | some error =>
                    (.error (.transport error), ⟨⟨[], failure⟩, decoder, finished⟩, others.tail)
                | none =>
                    if decoder.atFrameBoundary then
                      (.ok none, ⟨⟨[], failure⟩, decoder, true⟩, others.tail)
                    else
                      (.error (.violation endedMidFrame), ⟨⟨[], failure⟩, decoder, true⟩,
                        others.tail)

/-- `next` among the other streams of the connection. -/
def nextAmong (r : FrameReader ε) (others : Others) : ReadAmong ε :=
  nextAmongLoop r.recv.failure r.finished r.recv.chunks r.decoder others

/-! ### Where a reader is -/

/-- The bytes that have not been read yet. -/
def unread (r : FrameReader ε) : List UInt8 :=
  r.decoder.chunk ++ r.recv.chunks.flatten

/-- A reader in the middle of its stream, where the byte machine is at `m`. -/
structure At (r : FrameReader ε) (m : FrameMachine) : Prop where
  represents : FrameDecoder.Represents (r.decoder, ⟨r.decoder.charged⟩) m
  finished : r.finished = false

/-- A stream of which nothing has been read. -/
theorem at_withKind (recv : RecvStream ε) (stream : StreamKind) :
    (withKind recv stream).At (FrameMachine.new stream) :=
  ⟨FrameDecoder.represents_new stream, rfl⟩

/-- What a call takes off the stream: an item, with the bytes that stand for it; nothing, at the
end of a stream between two frames; or an error, which is the machine's, the transport's, or that
of a stream that ends inside a frame. -/
def Takes (r : FrameReader ε) (m : FrameMachine) (result : Except (ReadError ε) (Option Item))
    (r' : FrameReader ε) : Prop :=
  match result with
  | .ok (some item) => r'.recv.failure = r.recv.failure ∧ ∃ used events m', r'.At m' ∧
      r.unread = used ++ r'.unread ∧ feedAll feed m used = ⟨events, m', none⟩ ∧
      item.Renders events ∧ (¬FrameDecoder.IsPiece item → m'.position = .header [])
  | .ok none => r.recv.failure = none ∧
      ∃ m', feedAll feed m r.unread = Outcome.idle m' ∧ m'.position = .header []
  | .error (.violation violation) =>
      (∃ m', feedAll feed m r.unread = ⟨[], m', some violation⟩) ∨
        violation = endedMidFrame ∧ r.recv.failure = none ∧
          ∃ m', feedAll feed m r.unread = Outcome.idle m' ∧ m'.position ≠ .header []
  | .error (.transport error) => r.recv.failure = some error ∧
      ∃ m', feedAll feed m r.unread = Outcome.idle m'

/-- A call that was refused room. -/
def RefusedRoom (result : Except (ReadError ε) (Option Item)) : Prop :=
  ∃ violation, result = .error (.violation violation) ∧
    violation.isFieldSectionTooLarge = true ∧ violation.isConnectionError = false

/-- A call of the decoder that returns an item or a violation ends the loop. -/
theorem takes_returned {failure : Option ε} {chunks : List (List UInt8)} {d d' : FrameDecoder}
    {m : FrameMachine} {others : Others} {result : Except Violation (Option Item)}
    (hcall : d.nextItemAmong (others 0) = (result, d')) (hne : result ≠ .ok none)
    (hsound : d'.Sound ⟨d'.charged⟩) (hleaves : d.Leaves m result d') :
    Takes ⟨⟨chunks, failure⟩, d, false⟩ m (nextAmongLoop failure false chunks d others).1
      (nextAmongLoop failure false chunks d others).2.1 := by
  rw [nextAmongLoop]
  rcases result with violation | _ | item
  · obtain ⟨m', hfeed⟩ := hleaves
    simp only [hcall]
    refine Or.inl ⟨m', ?_⟩
    rw [unread, feedAll_append, hfeed, Outcome.stopped_andThen]
  · exact absurd rfl hne
  · obtain ⟨used, events, m', hchunk, hsettle, hfeed, hitem⟩ := hleaves
    simp only [hcall]
    refine ⟨rfl, used, events, m', ⟨⟨hsound, hsettle⟩, rfl⟩, ?_, hfeed, hitem⟩
    rw [unread, unread, hchunk, List.append_assoc]

/-- A call at the end of the stream judges the end. -/
theorem takes_end {failure : Option ε} {d d' : FrameDecoder} {m m' : FrameMachine}
    {others : Others} (hcall : d.nextItemAmong (others 0) = (.ok none, d'))
    (hrep : FrameDecoder.Represents (d', ⟨d'.charged⟩) m')
    (hfeed : feedAll feed m d.chunk = Outcome.idle m') :
    Takes ⟨⟨[], failure⟩, d, false⟩ m (nextAmongLoop failure false [] d others).1
      (nextAmongLoop failure false [] d others).2.1 := by
  have hunread : feedAll feed m (unread (ε := ε) ⟨⟨[], failure⟩, d, false⟩) = Outcome.idle m' := by
    rw [unread, List.flatten_nil, List.append_nil, hfeed]
  have hboundary := hrep.atFrameBoundary_iff
  rw [nextAmongLoop]
  simp only [hcall, Bool.false_eq_true, if_false]
  cases failure with
  | some error => exact ⟨rfl, m', hunread⟩
  | none =>
      simp only
      by_cases hb : d'.atFrameBoundary = true
      · rw [if_pos hb]
        exact ⟨rfl, m', hunread, hboundary.mp hb⟩
      · rw [if_neg hb]
        exact Or.inr ⟨rfl, rfl, m', hunread, fun hm => hb (hboundary.mpr hm)⟩

/-- A chunk that was read in silence is passed over. -/
theorem Takes.of_silent {failure : Option ε} {chunk : List UInt8} {chunks : List (List UInt8)}
    {d d' : FrameDecoder} {m m' : FrameMachine}
    (hfeed : feedAll feed m d.chunk = Outcome.idle m')
    {result : Except (ReadError ε) (Option Item)} {r' : FrameReader ε}
    (h : Takes ⟨⟨chunks, failure⟩, d'.push chunk, false⟩ m' result r') :
    Takes ⟨⟨chunk :: chunks, failure⟩, d, false⟩ m result r' := by
  have hunread : feedAll feed m (unread (ε := ε) ⟨⟨chunk :: chunks, failure⟩, d, false⟩) =
      feedAll feed m' (unread (ε := ε) ⟨⟨chunks, failure⟩, d'.push chunk, false⟩) := by
    rw [unread, feedAll_append, hfeed, Outcome.idle_andThen, List.flatten_cons]
    rfl
  rcases result with (violation | error) | _ | item
  · simpa only [Takes, hunread] using h
  · simpa only [Takes, hunread] using h
  · simpa only [Takes, hunread] using h
  · obtain ⟨hfailure, used, events, m'', hat, hused, hread, hitem⟩ := h
    refine ⟨hfailure, d.chunk ++ used, events, m'', hat, ?_, ?_, hitem⟩
    · rw [List.append_assoc, ← hused, unread, List.flatten_cons]
      rfl
    · rw [feedAll_append, hfeed, Outcome.idle_andThen, hread]

/-- A decoder that is refused room ends the loop. -/
theorem refusedRoom_of_call {failure : Option ε} {chunks : List (List UInt8)}
    {d : FrameDecoder} {others : Others}
    (h : FrameDecoder.Refused (d.nextItemAmong (others 0)).1) :
    RefusedRoom (nextAmongLoop failure false chunks d others).1 := by
  obtain ⟨violation, hresult, hv⟩ := h
  obtain ⟨result, d', hcall⟩ : ∃ result d', d.nextItemAmong (others 0) = (result, d') :=
    ⟨_, _, rfl⟩
  rw [hcall] at hresult
  simp only at hresult
  subst hresult
  rw [nextAmongLoop]
  simp only [hcall]
  exact ⟨violation, rfl, hv⟩

/-- A reader may find no room at one of the calls to come. -/
def Crowded (m : FrameMachine) (others : Others) : Prop :=
  m.stream ≠ .tunnel ∧ ∃ call, headersBufferBudget < others call + maxBufferedFrame

/-- What the loop of `next` does, over the chunks still to come. -/
def LoopTakes (failure : Option ε) (chunks : List (List UInt8)) (d : FrameDecoder)
    (m : FrameMachine) (others : Others) : Prop :=
  Takes ⟨⟨chunks, failure⟩, d, false⟩ m (nextAmongLoop failure false chunks d others).1
      (nextAmongLoop failure false chunks d others).2.1 ∨
    Crowded m others ∧ RefusedRoom (nextAmongLoop failure false chunks d others).1

/-- The loop goes on only when the decoder has read all of its chunk in silence. -/
theorem loopTakes_of_wait {failure : Option ε} {chunks : List (List UInt8)} {d : FrameDecoder}
    {m : FrameMachine} (hd : FrameDecoder.Represents (d, ⟨d.charged⟩) m) {others : Others}
    (hwait : ∀ d' m', d.nextItemAmong (others 0) = (.ok none, d') →
      FrameDecoder.Represents (d', ⟨d'.charged⟩) m' → feedAll feed m d.chunk = Outcome.idle m' →
      LoopTakes failure chunks d m others) : LoopTakes failure chunks d m others := by
  obtain ⟨result, d', hcall⟩ : ∃ result d', d.nextItemAmong (others 0) = (result, d') :=
    ⟨_, _, rfl⟩
  rcases FrameDecoder.nextItemAmong_spec hd (others 0) with ⟨hsound, hleaves⟩ | ⟨hfull, hroom⟩
  · rw [hcall] at hsound hleaves
    by_cases hne : result = .ok none
    · subst hne
      obtain ⟨m', hsettle, hfeed⟩ := hleaves
      exact hwait d' m' hcall ⟨hsound, hsettle⟩ hfeed
    · exact Or.inl (takes_returned hcall hne hsound hleaves)
  · refine Or.inr ⟨⟨?_, 0, hfull.2⟩, refusedRoom_of_call hroom⟩
    rw [FrameDecoder.stream_of_settle hd.2]
    exact hfull.1

/-- **The loop of `next`**, however the stream is cut. -/
theorem nextAmongLoop_spec (failure : Option ε) (chunks : List (List UInt8)) (d : FrameDecoder)
    (m : FrameMachine) (hd : FrameDecoder.Represents (d, ⟨d.charged⟩) m) (others : Others) :
    LoopTakes failure chunks d m others := by
  induction chunks generalizing d m others with
  | nil =>
      refine loopTakes_of_wait hd ?_
      intro d' m' hcall hrep hfeed
      exact Or.inl (takes_end hcall hrep hfeed)
  | cons chunk chunks ih =>
      refine loopTakes_of_wait hd ?_
      intro d' m' hcall hrep hfeed
      have hloop : nextAmongLoop failure false (chunk :: chunks) d others =
          nextAmongLoop failure false chunks (d'.push chunk) others.tail := by
        rw [nextAmongLoop]
        simp only [hcall, Bool.false_eq_true, if_false]
      rw [LoopTakes, hloop]
      rcases ih (d'.push chunk) m' ⟨hrep.1.push chunk, hrep.2⟩ others.tail with
        htakes | ⟨⟨htunnel, call, hfull⟩, hroom⟩
      · exact Or.inl (htakes.of_silent hfeed)
      · have hstream := FrameMachine.feedAll_stream m d.chunk
        rw [hfeed] at hstream
        exact Or.inr ⟨⟨hstream ▸ htunnel, call + 1, hfull⟩, hroom⟩

/-- **What a call takes off the stream**, unless the budget is found full. -/
theorem nextAmong_spec {r : FrameReader ε} {m : FrameMachine} (h : r.At m) (others : Others) :
    r.Takes m (r.nextAmong others).1 (r.nextAmong others).2.1 ∨
      Crowded m others ∧ RefusedRoom (r.nextAmong others).1 := by
  obtain ⟨⟨chunks, failure⟩, d, finished⟩ := r
  obtain ⟨hrep, rfl⟩ := h
  exact nextAmongLoop_spec failure chunks d m hrep others

/-! ### Progress -/

/-- The loop leaves the calls it did not make. -/
theorem nextAmongLoop_others (failure : Option ε) (finished : Bool)
    (chunks : List (List UInt8)) (d : FrameDecoder) (others : Others) :
    ∃ calls, (nextAmongLoop failure finished chunks d others).2.2 =
      fun call => others (call + calls) := by
  fun_induction nextAmongLoop failure finished chunks d others with
  | case4 d others d' hcall hnot chunk chunks ih =>
      obtain ⟨calls, h⟩ := ih
      exact ⟨calls + 1, h⟩
  | _ => exact ⟨1, rfl⟩

/-- A reader has less to do than another one: fewer chunks, or as many and a decoder that is closer
to asking for more. -/
def Behind (r r' : FrameReader ε) : Prop :=
  r'.recv.chunks.length < r.recv.chunks.length ∨
    r'.recv.chunks.length = r.recv.chunks.length ∧ r'.decoder.weight < r.decoder.weight

/-- A loop that returns an item has something done. -/
theorem behind_nextAmongLoop {failure : Option ε} {finished : Bool}
    {chunks : List (List UInt8)} {d : FrameDecoder} {others : Others} {item : Item}
    (h : (nextAmongLoop failure finished chunks d others).1 = .ok (some item)) :
    Behind ⟨⟨chunks, failure⟩, d, finished⟩
      (nextAmongLoop failure finished chunks d others).2.1 := by
  fun_induction nextAmongLoop failure finished chunks d others with
  | case2 chunks d others item' d' hcall =>
      obtain ⟨result, d'', budget, hnext⟩ :
          ∃ result d'' budget, d.nextItem ⟨others 0 + d.charged⟩ = (result, d'', budget) :=
        ⟨_, _, _, rfl⟩
      rw [FrameDecoder.nextItemAmong, hnext] at hcall
      cases hcall
      exact Or.inr ⟨rfl, FrameDecoder.weight_lt_of_nextItem hnext⟩
  | case4 d others d' hcall hnot chunk chunks ih =>
      have hlt : chunks.length < (chunk :: chunks).length := by simp
      rcases ih h with hchunks | ⟨hchunks, -⟩
      · exact Or.inl (hchunks.trans hlt)
      · exact Or.inl (hchunks.trans_lt hlt)
  | _ => cases h

/-- **Reading makes progress**: a reader that returned an item has less to do. -/
theorem behind_nextAmong {r r' : FrameReader ε} {others others' : Others} {item : Item}
    (h : r.nextAmong others = (.ok (some item), r', others')) : r.Behind r' := by
  have hloop := @behind_nextAmongLoop ε r.recv.failure r.finished r.recv.chunks r.decoder others
    item
  rw [show nextAmongLoop r.recv.failure r.finished r.recv.chunks r.decoder others = _ from h]
    at hloop
  exact hloop rfl

end FrameReader

end Volto
