import Volto.H3.FrameMachine

/-!
# Chunk Independence of the Frame Decoder

A decoder that is drained after every chunk is the byte machine fed the bytes of the
chunks. The passes preserve the meaning of a decoder; here that is lifted over the loop of
`nextItem`, over the calls that drain one chunk and over the chunks of a run. The machine
sees the concatenation of the chunks only, so neither the items, nor the violation, nor the
final position can depend on where the stream was cut.

The one thing that does show the cuts is how DATA is handed out, in the pieces it arrived
in. `coalesce` joins adjacent pieces, and two runs over one stream agree after it.

## Main results

* `drain_refines`: a drained decoder is the machine fed the chunk in hand.
* `run_refines`: a whole run is the machine fed the concatenation of the chunks.
* `run_eq_of_flatten_eq`: runs over two cuts of one stream agree.
-/

namespace Volto

open Incremental

namespace FrameDecoder

open FrameMachine (feed)

/-! ### From passes to runs -/

/-- A sound decoder stays sound over a call, and the call reports the front of its
meaning. -/
theorem nextItem_returns (d : FrameDecoder) (budget : BufferBudget) (h : d.Sound budget) :
    (d.nextItem budget).2.1.Sound (d.nextItem budget).2.2 ∧
      d.Returns (d.nextItem budget).1 (d.nextItem budget).2.1 := by
  revert h
  refine nextItem_induction
    (motive := fun d budget r => d.Sound budget → r.2.1.Sound r.2.2 ∧ d.Returns r.1 r.2.1)
    ?_ ?_ d budget
  · intro d budget result d' budget' hpass h
    exact ⟨h.done hpass, hpass.meaning_done h⟩
  · intro d budget d' budget' r hpass ih h
    obtain ⟨hsound, hreturns⟩ := ih (h.again hpass)
    refine ⟨hsound, ?_⟩
    rw [Returns] at hreturns ⊢
    rw [hpass.meaning_again h]
    exact hreturns

/-- A decoder and its budget represent a machine: the decoder is sound and its state, once
settled, is that machine. -/
def Represents (s : FrameDecoder × BufferBudget) (m : FrameMachine) : Prop :=
  s.1.Sound s.2 ∧ s.1.settle = Outcome.idle m

/-- A fresh decoder represents a fresh machine. -/
theorem represents_new (stream : StreamKind) :
    Represents (new stream, BufferBudget.unshared) (FrameMachine.new stream) :=
  ⟨sound_new stream, rfl⟩

/-- **A drained decoder has done what it was about to do.** -/
theorem drain_refines (d : FrameDecoder) (budget : BufferBudget) (h : d.Sound budget) :
    (d.drain budget).Refines Item.Renders Represents d.meaning := by
  revert h
  refine drain_induction
    (motive := fun d budget o => d.Sound budget → o.Refines Item.Renders Represents d.meaning)
    ?_ ?_ ?_ d budget
  · intro d budget d' budget' hnext h
    have hret := nextItem_returns d budget h
    rw [hnext] at hret
    obtain ⟨hsound, m, step, hm, rfl, hmeaning, hchunk⟩ := hret
    rw [hmeaning, hchunk rfl]
    exact Outcome.Refines.idle ⟨hsound, hm⟩
  · intro d budget violation d' budget' hnext h
    have hret := nextItem_returns d budget h
    rw [hnext] at hret
    obtain ⟨hsound, m, step, hm, rfl, hmeaning, -⟩ := hret
    rw [hmeaning]
    exact ⟨Groups.nil, ⟨hsound, hm⟩, rfl⟩
  · intro d budget item d' budget' rest hnext ih h
    have hret := nextItem_returns d budget h
    rw [hnext] at hret
    obtain ⟨hsound, m, step, hm, ⟨events, hrender, rfl⟩, hmeaning, -⟩ := hret
    obtain ⟨hout, hstate, herror⟩ := ih hsound
    rw [meaning, hm, Outcome.idle_andThen] at hout hstate herror
    rw [hmeaning]
    exact ⟨hout.cons hrender, hstate, herror⟩

/-- **Pushing a chunk and draining is feeding its bytes.** -/
theorem pushDrain_refines (s : FrameDecoder × BufferBudget) (m : FrameMachine)
    (chunk : List UInt8) (h : Represents s m) :
    (pushDrain s chunk).Refines Item.Renders Represents (feedAll feed m chunk) := by
  have hmeaning : (s.1.push chunk).meaning = feedAll feed m chunk := by
    rw [meaning]
    exact (congrArg (Outcome.andThen · _) h.2).trans (Outcome.idle_andThen _ _)
  rw [← hmeaning]
  exact drain_refines _ _ (h.1.push chunk)

/-- **A run is the machine fed the whole stream.** -/
theorem run_refines (stream : StreamKind) (chunks : List (List UInt8)) :
    (run stream chunks).Refines Item.Renders Represents
      (feedAll feed (FrameMachine.new stream) chunks.flatten) :=
  feedAll_refines pushDrain_refines (represents_new stream) chunks

/-- The decoder is between frames exactly when the machine it represents is. -/
theorem Represents.atFrameBoundary_iff {s : FrameDecoder × BufferBudget} {m : FrameMachine}
    (h : Represents s m) : s.1.atFrameBoundary = true ↔ m.position = .header [] := by
  obtain ⟨d, budget⟩ := s
  obtain ⟨-, hm⟩ := h
  simp only at hm
  simp only [atFrameBoundary, Bool.and_eq_true, decide_eq_true_eq, List.length_eq_zero_iff]
  rw [settle] at hm
  split_ifs at hm with hs
  · obtain rfl : d.machine = m := congrArg Outcome.state hm
    simp [hs, machine]
  · have hstate : (d.machine.enter d.payload d.state).state = m := congrArg Outcome.state hm
    have herror : (d.machine.enter d.payload d.state).error = none := congrArg Outcome.error hm
    have hout : (d.machine.enter d.payload d.state).out = [] := congrArg Outcome.out hm
    -- a settled payload has a byte to come, and its position is not a header
    rcases hd : d.state with _ | (_ | more) | ⟨kind, _ | more⟩ | ⟨kind, _ | more⟩
    · exact absurd hd hs
    · simp [hd, FrameMachine.enter] at hout
    · simp [← hstate, hd, FrameMachine.enter, Outcome.idle]
    · simp only [hd, FrameMachine.enter, FrameMachine.complete] at hout herror
      cases hparse : Frame.parse kind d.payload with
      | ok f => simp [hparse] at hout
      | error violation => simp [hparse] at herror
    · simp [← hstate, hd, FrameMachine.enter, Outcome.idle]
    · simp only [hd, FrameMachine.enter, FrameMachine.finishSkip] at hout herror
      split_ifs at hout herror
    · simp [← hstate, hd, FrameMachine.enter, Outcome.idle]

end FrameDecoder

/-! ### Joining the pieces of DATA -/

namespace Item

/-- Put non-empty DATA in front of items, joining it to DATA that stands first. -/
def prependData (bytes : List UInt8) : List Item → List Item
  | .data (byte :: more) :: items => .data (bytes ++ byte :: more) :: items
  | items => .data bytes :: items

/-- Concatenate each maximal run of adjacent non-empty DATA items. Empty DATA, frames and
skipped frames stay as they are. -/
def coalesce : List Item → List Item
  | [] => []
  | .data (byte :: bytes) :: items => prependData (byte :: bytes) (coalesce items)
  | item :: items => item :: coalesce items

/-- The items a sequence of events stands for, with adjacent bytes in one DATA item. -/
def regroup : List Event → List Item
  | [] => []
  | .byte byte _ :: events => prependData [byte] (regroup events)
  | .emptyData :: events => .data [] :: regroup events
  | .frame f :: events => .frame f :: regroup events
  | .skipped kind :: events => .skipped kind :: regroup events

/-- Joining twice is joining once. -/
theorem prependData_prependData (byte byte' : UInt8) (bytes : List UInt8) (items : List Item) :
    prependData [byte] (prependData (byte' :: bytes) items) =
      prependData (byte :: byte' :: bytes) items := by
  rcases items with _ | ⟨⟨_ | _⟩ | _ | _, items⟩ <;> rfl

/-- The bytes of a piece make up one piece of DATA again. -/
theorem regroup_dataEvents (byte : UInt8) (bytes : List UInt8) (last : Bool)
    (events : List Event) :
    regroup (dataEvents (byte :: bytes) last ++ events) =
      prependData (byte :: bytes) (regroup events) := by
  induction bytes generalizing byte with
  | nil => rfl
  | cons byte' bytes ih =>
      rw [dataEvents, List.cons_append, regroup, ih byte', prependData_prependData]

/-- Coalesced items are a function of the events the items stand for. -/
theorem coalesce_eq_regroup {items : List Item} {events : List Event}
    (h : Groups Renders items events) : coalesce items = regroup events := by
  obtain ⟨groups, hgroups, rfl⟩ := h
  induction hgroups with
  | nil => rfl
  | @cons item group items groups hrender _ ih =>
      rw [List.flatten_cons]
      cases item with
      | data bytes =>
          cases bytes with
          | nil =>
              obtain rfl : group = [.emptyData] := hrender
              exact congrArg _ ih
          | cons byte bytes =>
              obtain ⟨last, rfl⟩ := hrender
              rw [coalesce, ih, regroup_dataEvents]
      | frame f =>
          obtain rfl : group = [.frame f] := hrender
          exact congrArg _ ih
      | skipped kind =>
          obtain rfl : group = [.skipped kind] := hrender
          exact congrArg _ ih

end Item

namespace FrameDecoder

/-- **The decoder does not depend on how the stream was cut**: two runs over the same bytes
produce the same items once adjacent pieces of DATA are joined, stop with the same violation
or both with none, and agree on whether the stream could end there. -/
theorem run_eq_of_flatten_eq (stream : StreamKind) {chunks chunks' : List (List UInt8)}
    (h : chunks.flatten = chunks'.flatten) :
    Item.coalesce (run stream chunks).out = Item.coalesce (run stream chunks').out ∧
      (run stream chunks).error = (run stream chunks').error ∧
      (run stream chunks).state.1.atFrameBoundary =
        (run stream chunks').state.1.atFrameBoundary := by
  have hrun := run_refines stream chunks
  have hrun' := run_refines stream chunks'
  rw [← h] at hrun'
  refine ⟨?_, hrun.error.trans hrun'.error.symm, ?_⟩
  · rw [Item.coalesce_eq_regroup hrun.out, Item.coalesce_eq_regroup hrun'.out]
  · rw [Bool.eq_iff_iff]
    exact hrun.state.atFrameBoundary_iff.trans hrun'.state.atFrameBoundary_iff.symm

/-- One DATA frame, cut in two ways. -/
theorem run_eq_of_flatten_eq_data_frame :
    [[0x00, 0x02], [0x61, 0x62]].flatten = ([[0x00], [0x02, 0x61], [0x62]] :
        List (List UInt8)).flatten ∧
      Item.coalesce (run .request [[0x00, 0x02], [0x61, 0x62]]).out =
        Item.coalesce (run .request [[0x00], [0x02, 0x61], [0x62]]).out ∧
      (run .request [[0x00, 0x02], [0x61, 0x62]]).error =
        (run .request [[0x00], [0x02, 0x61], [0x62]]).error ∧
      (run .request [[0x00, 0x02], [0x61, 0x62]]).state.1.atFrameBoundary =
        (run .request [[0x00], [0x02, 0x61], [0x62]]).state.1.atFrameBoundary :=
  ⟨rfl, run_eq_of_flatten_eq .request rfl⟩

end FrameDecoder

end Volto
