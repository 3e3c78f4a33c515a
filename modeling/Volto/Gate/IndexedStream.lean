import Volto.Gate.Indexed

/-!
# The Arithmetic of the Stream

`crypto_stream_prefix` and `skip_varints` of `gate.rs` with their positions, as in `Indexed`. A loop
has a number of passes, and going on after the last of them is a fault: every pass reads at least a
byte, so no count that a peer names makes a loop longer than its payload.

## Main results

* `cryptoStreamPrefix_eq`: the stream is read without a fault.
-/

namespace Volto

namespace Gate

namespace Indexed

open Checked

/-! ### The frames -/

/-- `skip_varints`. -/
def skipVarints (payload : List UInt8) : (passes start count : ℕ) → Except Stop ℕ
  | _, start, 0 => .ok start
  | 0, _, _ + 1 => .error (.fault .endless)
  | passes + 1, start, count + 1 => do
      let (_, start) ← varintAt payload start
      skipVarints payload passes start count

/-- The passes of a loop over a payload: one for each of its bytes, and one more. -/
def passes (payload : List UInt8) : ℕ :=
  payload.length + 1

/-- `peek_varint(payload.get(at..)?)?` and `at += read`. -/
def nextVarint (payload : List UInt8) (start : ℕ) : Except Stop (ℕ × ℕ) := do
  let rest ← refuse (getFrom payload start)
  let (value, read) ← peekVarint rest
  let stop ← add addressMax start read
  .ok (value, stop)

/-- `peek_varint(&payload[at..])?` and `at += read`. -/
def frameKind (payload : List UInt8) (start : ℕ) : Except Stop (ℕ × ℕ) := do
  let rest ← slice payload start payload.length
  let (kind, read) ← peekVarint rest
  let stop ← add addressMax start read
  .ok (kind, stop)

/-- `a.checked_mul(b)`. -/
def checkedMul (a b : ℕ) : Option ℕ :=
  if a * b ≤ addressMax then some (a * b) else none

/-- The arm of an ACK. -/
def skipAck (payload : List UInt8) (ecn : Bool) (start : ℕ) : Except Stop ℕ := do
  let start ← skipVarints payload (passes payload) start 2
  let (ranges, start) ← nextVarint payload start
  let start ← skipVarints payload (passes payload) start 1
  let ranges ← refuse (tryFrom ranges)
  let ranges ← refuse (checkedMul ranges 2)
  let start ← skipVarints payload (passes payload) start ranges
  if ecn then skipVarints payload (passes payload) start 3 else .ok start

/-- The arm of a CRYPTO frame. -/
def takeCrypto (payload : List UInt8) (start : ℕ) : Except Stop (Fragment × ℕ) := do
  let (offset, start) ← nextVarint payload start
  let (length, start) ← nextVarint payload start
  let length ← refuse (tryFrom length)
  let stop ← refuse (checkedAdd addressMax start length)
  let data ← refuse (getRange payload start stop)
  .ok ((offset, data), stop)

/-- The arm of a CONNECTION_CLOSE. -/
def skipConnectionClose (payload : List UInt8) (start : ℕ) : Except Stop ℕ := do
  let start ← skipVarints payload (passes payload) start 2
  let (reason, start) ← nextVarint payload start
  let reason ← refuse (tryFrom reason)
  let stop ← refuse (checkedAdd addressMax start reason)
  if payload.length < stop then .error .refused else .ok stop

/-- One pass of the walk: the fragment found and the position after it, or the end of the frames
that are understood. -/
def takeFrame (payload : List UInt8) (start : ℕ) : Except Stop (Option (Option Fragment × ℕ)) := do
  let (kind, start) ← frameKind payload start
  if kind = framePadding ∨ kind = framePing then .ok (some (none, start))
  else if kind = frameAck ∨ kind = frameAckEcn then do
    let start ← skipAck payload (kind = frameAckEcn) start
    .ok (some (none, start))
  else if kind = frameCrypto then do
    let (fragment, start) ← takeCrypto payload start
    .ok (some (some fragment, start))
  else if kind = frameConnectionClose then do
    let start ← skipConnectionClose payload start
    .ok (some (none, start))
  else .ok none

/-- The walk over the frames. -/
def walk (payload : List UInt8) : (passes : ℕ) → List Fragment → (start : ℕ) →
    Except Stop (List Fragment)
  | 0, fragments, start =>
      if start < payload.length then .error (.fault .endless) else .ok fragments
  | passes + 1, fragments, start =>
      if start < payload.length then do
        match ← takeFrame payload start with
        | some (fragment, start) => walk payload passes (fragments ++ fragment.toList) start
        | none => .ok fragments
      else .ok fragments

/-- The loop that appends the fragments. -/
def extend (stream : List UInt8) : List Fragment → Except Stop (List UInt8)
  | [] => .ok stream
  | (offset, data) :: fragments => do
      let offset ← refuse (tryFrom offset)
      if stream.length < offset then .ok stream
      else do
        let skip ← sub stream.length offset
        match getFrom data skip with
        | some fresh => extend (stream ++ fresh) fragments
        | none => extend stream fragments

/-- `crypto_stream_prefix`. -/
def cryptoStreamPrefix (payload : List UInt8) : Except Stop (List UInt8) := do
  let fragments ← walk payload (passes payload) [] 0
  match fragments.insertionSort Reassembly.Before with
  | [(0, data)] => if data.isEmpty then .error .refused else .ok data
  | fragments => do
      let stream ← extend [] fragments
      if stream.isEmpty then .error .refused else .ok stream

/-! ### The frames, without a fault -/

/-- A position in a payload, and what is left from there. -/
def At (payload : List UInt8) (start : ℕ) (rest : List UInt8) : Prop :=
  start ≤ payload.length ∧ payload.drop start = rest

/-- A varint that was read at a position, and the position after it. -/
structure AfterVarint (payload : List UInt8) (start : ℕ) (found : ℕ × ℕ) (read : ℕ × List UInt8) :
    Prop where
  value : found.1 = read.1
  bound : found.1 ≤ varintMax
  progress : start < found.2
  position : At payload found.2 read.2

/-- A fragment that was found, and the position after it. -/
structure AfterFragment (payload : List UInt8) (found : Fragment × ℕ)
    (read : Fragment × List UInt8) : Prop where
  fragment : found.1 = read.1
  bound : found.1.1 ≤ varintMax
  position : At payload found.2 read.2

variable {payload rest : List UInt8} {start : ℕ}

/-- What is left at an index ends where the payload ends. -/
theorem At.length (h : At payload start rest) : start + rest.length = payload.length := by
  obtain ⟨hle, rfl⟩ := h
  rw [List.length_drop]
  omega

/-- A position further on. -/
theorem At.drop (h : At payload start rest) {read : ℕ} (hread : read ≤ rest.length) :
    At payload (start + read) (rest.drop read) := by
  have hlength := h.length
  obtain ⟨hle, rfl⟩ := h
  exact ⟨by omega, by rw [List.drop_drop]⟩

/-- A varint, however its position is moved past it. -/
theorem refines_takeVarint (hpayload : payload.length ≤ isizeMax) (h : At payload start rest)
    (advance : ℕ → Except Stop ℕ)
    (hadvance : ∀ read, start + read ≤ addressMax → advance read = .ok (start + read)) :
    Refines (AfterVarint payload start)
      (peekVarint rest >>= fun (value, read) => do
        let stop ← advance read
        .ok (value, stop))
      (takeVarint rest) := by
  rw [peekVarint_eq, takeVarint]
  cases hpeek : Volto.peekVarint rest with
  | none => rfl
  | some r =>
      obtain ⟨value, read⟩ := r
      obtain ⟨hpos, -, hread, hvalue⟩ := peekVarint_bounds hpeek
      have hlength := h.length
      have hmax : isizeMax ≤ addressMax := by decide
      rw [refuse_some, Fallible.ok_bind]
      simp only
      rw [hadvance read (by omega), Fallible.ok_bind]
      exact .ok ⟨rfl, hvalue, by simp only; omega, h.drop hread⟩

/-- Reading a varint by index refines taking it off the front. -/
theorem refines_varintAt (hpayload : payload.length ≤ isizeMax) (h : At payload start rest) :
    Refines (AfterVarint payload start) (varintAt payload start) (takeVarint rest) := by
  rw [varintAt, getFrom_of_le h.1, h.2, refuse_some, Fallible.ok_bind]
  refine refines_takeVarint hpayload h (fun read => refuse (checkedAdd addressMax start read)) ?_
  intro read hfits
  rw [checkedAdd_of_le hfits, refuse_some]

/-- Reading the next varint by index refines taking it off the front. -/
theorem refines_nextVarint (hpayload : payload.length ≤ isizeMax) (h : At payload start rest) :
    Refines (AfterVarint payload start) (nextVarint payload start) (takeVarint rest) := by
  rw [nextVarint, getFrom_of_le h.1, h.2, refuse_some, Fallible.ok_bind]
  exact refines_takeVarint hpayload h (add addressMax start) fun read hfits => add_of_le hfits

/-- Reading the type of a frame by index refines taking it off the front. -/
theorem refines_frameKind (hpayload : payload.length ≤ isizeMax) (h : At payload start rest) :
    Refines (AfterVarint payload start) (frameKind payload start) (takeVarint rest) := by
  rw [frameKind, slice_of_le h.1 (Nat.le_refl _), List.take_length, h.2, Fallible.ok_bind]
  exact refines_takeVarint hpayload h (add addressMax start) fun read hfits => add_of_le hfits

/-- **No count makes the loop longer than the payload.** -/
theorem refines_skipVarints (hpayload : payload.length ≤ isizeMax) (h : At payload start rest)
    {passes : ℕ} (hpasses : payload.length < start + passes) (count : ℕ) :
    Refines (At payload) (skipVarints payload passes start count)
      (Gate.skipVarints count rest) := by
  induction count generalizing passes start rest with
  | zero =>
      rw [skipVarints, Gate.skipVarints]
      exact .ok h
  | succ count ih =>
      cases passes with
      | zero =>
          have := h.1
          omega
      | succ passes =>
          refine (refines_varintAt hpayload h).bind ?_
          rintro ⟨value, stop⟩ ⟨value', rest'⟩ hread
          have hprogress := hread.progress
          simp only at hprogress
          exact ih hread.position (by omega)

/-- Skipping varints by index refines skipping them off the front. -/
theorem refines_skip (hpayload : payload.length ≤ isizeMax) (h : At payload start rest)
    (count : ℕ) :
    Refines (At payload) (skipVarints payload (passes payload) start count)
      (Gate.skipVarints count rest) :=
  refines_skipVarints hpayload h (by rw [passes]; omega) count

/-- Skipping an ACK by index refines skipping it off the front. -/
theorem refines_skipAck (hpayload : payload.length ≤ isizeMax) (h : At payload start rest)
    (ecn : Bool) :
    Refines (At payload) (skipAck payload ecn start) (Gate.skipAck ecn rest) := by
  refine (refines_skip hpayload h 2).bind fun start₁ rest₁ h₁ => ?_
  refine (refines_nextVarint hpayload h₁).bind ?_
  rintro ⟨ranges, start₂⟩ ⟨ranges', rest₂⟩ h₂
  obtain rfl : ranges = ranges' := h₂.value
  refine (refines_skip hpayload h₂.position 1).bind fun start₃ rest₃ h₃ => ?_
  have hranges : ranges * 2 ≤ addressMax := by
    have hbound : ranges ≤ varintMax := h₂.bound
    have hmax : varintMax * 2 ≤ addressMax := by decide
    omega
  refine .refuse_bind (tryFrom_of_le h₂.bound) (.refuse_bind (if_pos hranges) ?_)
  refine (refines_skip hpayload h₃ (ranges * 2)).bind fun start₄ rest₄ h₄ => ?_
  cases ecn with
  | true => exact refines_skip hpayload h₄ 3
  | false => exact .ok h₄

/-- Reading a CRYPTO frame by index refines taking it off the front. -/
theorem refines_takeCrypto (hpayload : payload.length ≤ isizeMax) (h : At payload start rest) :
    Refines (AfterFragment payload) (takeCrypto payload start) (Gate.takeCrypto rest) := by
  refine (refines_nextVarint hpayload h).bind ?_
  rintro ⟨offset, start₁⟩ ⟨offset', rest₁⟩ h₁
  obtain rfl : offset = offset' := h₁.value
  refine (refines_nextVarint hpayload h₁.position).bind ?_
  rintro ⟨length, start₂⟩ ⟨length', rest₂⟩ h₂
  obtain rfl : length = length' := h₂.value
  have hposition : At payload start₂ rest₂ := h₂.position
  have hlength := hposition.length
  have hbound : length ≤ varintMax := h₂.bound
  have hmax : isizeMax + varintMax ≤ addressMax := by decide
  refine .refuse_bind (tryFrom_of_le hbound) (.refuse_bind (checkedAdd_of_le (by omega)) ?_)
  simp only
  by_cases hlong : rest₂.length < length
  · rw [if_pos hlong, getRange, if_neg (by omega)]
    rfl
  · rw [if_neg hlong, getRange, if_pos (by omega), refuse_some, Fallible.ok_bind]
    refine .ok ⟨?_, h₁.bound, hposition.drop (Nat.le_of_not_lt hlong)⟩
    simp only
    rw [List.drop_take, hposition.2, Nat.add_sub_cancel_left]

/-- Skipping a CONNECTION_CLOSE by index refines skipping it off the front. -/
theorem refines_skipConnectionClose (hpayload : payload.length ≤ isizeMax)
    (h : At payload start rest) :
    Refines (At payload) (skipConnectionClose payload start) (Gate.skipConnectionClose rest) := by
  refine (refines_skip hpayload h 2).bind fun start₁ rest₁ h₁ => ?_
  refine (refines_nextVarint hpayload h₁).bind ?_
  rintro ⟨reason, start₂⟩ ⟨reason', rest₂⟩ h₂
  obtain rfl : reason = reason' := h₂.value
  have hposition : At payload start₂ rest₂ := h₂.position
  have hlength := hposition.length
  have hbound : reason ≤ varintMax := h₂.bound
  have hmax : isizeMax + varintMax ≤ addressMax := by decide
  refine .refuse_bind (tryFrom_of_le hbound) (.refuse_bind (checkedAdd_of_le (by omega)) ?_)
  simp only
  by_cases hlong : rest₂.length < reason
  · rw [if_pos hlong, if_pos (by omega)]
    rfl
  · rw [if_neg hlong, if_neg (by omega)]
    exact .ok (hposition.drop (Nat.le_of_not_lt hlong))

/-- A pass of the walk ends as the frame does. -/
def Finds (payload : List UInt8) (x : Except Stop (Option (Option Fragment × ℕ))) :
    FrameRead → Prop
  | .frame fragment rest => ∃ stop, x = .ok (some (fragment, stop)) ∧ At payload stop rest ∧
      ∀ piece ∈ fragment, piece.1 ≤ varintMax
  | .foreign => x = .ok none
  | .cut => x = .error .refused

/-- A frame without a fragment. -/
theorem finds_ofSkip {x : Except Stop ℕ} {y : Option (List UInt8)} (h : Refines (At payload) x y) :
    Finds payload (x >>= fun start => .ok (some (none, start))) (.ofSkip y) := by
  cases y with
  | none =>
      have hx : x = .error .refused := h
      rw [hx]
      rfl
  | some rest =>
      obtain ⟨stop, rfl, hat⟩ := h
      exact ⟨stop, rfl, hat, by simp⟩

/-- A frame with a fragment. -/
theorem finds_ofTake {x : Except Stop (Fragment × ℕ)} {y : Option (Fragment × List UInt8)}
    (h : Refines (AfterFragment payload) x y) :
    Finds payload (x >>= fun (fragment, start) => .ok (some (some fragment, start)))
      (.ofTake y) := by
  cases y with
  | none =>
      have hx : x = .error .refused := h
      rw [hx]
      rfl
  | some r =>
      obtain ⟨⟨fragment, stop⟩, rfl, hafter⟩ := h
      refine ⟨stop, ?_, hafter.position, ?_⟩
      · rw [← hafter.fragment]
        rfl
      · intro piece hpiece
        obtain rfl : r.1 = piece := Option.some.inj hpiece
        rw [← hafter.fragment]
        exact hafter.bound

/-- Reading a frame by index finds what taking it off the front does. -/
theorem finds_takeFrame (hpayload : payload.length ≤ isizeMax) (h : At payload start rest) :
    Finds payload (takeFrame payload start) (Gate.takeFrame rest) := by
  have hkind := refines_frameKind hpayload h
  rw [takeFrame, Gate.takeFrame]
  cases htake : takeVarint rest with
  | none =>
      rw [htake] at hkind
      have hrefused : frameKind payload start = .error .refused := hkind
      rw [hrefused]
      rfl
  | some r =>
      obtain ⟨kind, rest'⟩ := r
      rw [htake] at hkind
      obtain ⟨⟨kind', stop⟩, hok, hafter⟩ := hkind
      obtain rfl : kind' = kind := hafter.value
      have hposition : At payload stop rest' := hafter.position
      rw [hok, Fallible.ok_bind]
      simp only
      split_ifs
      · exact ⟨stop, rfl, hposition, by simp⟩
      · exact finds_ofSkip (refines_skipAck hpayload hposition _)
      · exact finds_ofTake (refines_takeCrypto hpayload hposition)
      · exact finds_ofSkip (refines_skipConnectionClose hpayload hposition)
      · rfl

/-- The fragments found, whose offsets are varints. -/
def FoundFragments (found read : List Fragment) : Prop :=
  found = read ∧ ∀ fragment ∈ found, fragment.1 ≤ varintMax

/-- **The walk ends within its passes.** -/
theorem refines_walk (hpayload : payload.length ≤ isizeMax) (h : At payload start rest)
    {passes : ℕ} (hpasses : payload.length ≤ start + passes) {fragments : List Fragment}
    (hfragments : ∀ fragment ∈ fragments, fragment.1 ≤ varintMax) :
    Refines FoundFragments (walk payload passes fragments start) (Gate.walk fragments rest) := by
  induction passes generalizing start rest fragments with
  | zero =>
      have hlength := h.length
      obtain rfl : rest = [] := List.eq_nil_of_length_eq_zero (by omega)
      rw [walk, if_neg (by omega), Gate.walk]
      exact .ok ⟨rfl, hfragments⟩
  | succ passes ih =>
      have hlength := h.length
      rw [walk]
      split_ifs with hlt
      · have hne : rest ≠ [] := by
          rintro rfl
          rw [List.length_nil] at hlength
          omega
        rw [walk_of_ne_nil hne]
        have hfinds := finds_takeFrame hpayload h
        cases hframe : Gate.takeFrame rest with
        | frame fragment rest' =>
            rw [hframe] at hfinds
            obtain ⟨stop, hok, hat, hpiece⟩ := hfinds
            have hshort := (takeFrame_append hframe).1
            have hlength' := hat.length
            rw [hok, Fallible.ok_bind]
            refine ih hat (by omega) fun found hmem => ?_
            rcases List.mem_append.mp hmem with hmem | hmem
            · exact hfragments found hmem
            · exact hpiece found (Option.mem_toList.mp hmem)
        | foreign =>
            rw [hframe] at hfinds
            have hok : takeFrame payload start = .ok none := hfinds
            rw [hok, Fallible.ok_bind]
            exact .ok ⟨rfl, hfragments⟩
        | cut =>
            rw [hframe] at hfinds
            have hrefused : takeFrame payload start = .error .refused := hfinds
            rw [hrefused]
            rfl
      · obtain rfl : rest = [] := List.eq_nil_of_length_eq_zero (by omega)
        rw [Gate.walk]
        exact .ok ⟨rfl, hfragments⟩

/-- The stream is extended by the fragments without an overflow. -/
theorem extend_eq {fragments : List Fragment}
    (h : ∀ fragment ∈ fragments, fragment.1 ≤ varintMax) (stream : List UInt8) :
    extend stream fragments = .ok (Reassembly.extend stream fragments) := by
  induction fragments generalizing stream with
  | nil => rfl
  | cons fragment fragments ih =>
      obtain ⟨offset, data⟩ := fragment
      have hoffset : offset ≤ varintMax := h (offset, data) List.mem_cons_self
      have hrest := ih fun other hmem => h other (List.mem_cons_of_mem _ hmem)
      rw [extend, Reassembly.extend, tryFrom_of_le hoffset, refuse_some, Fallible.ok_bind]
      split_ifs with hgap
      · rfl
      · rw [sub_of_le (Nat.le_of_not_lt hgap), Fallible.ok_bind, getFrom]
        split_ifs with hskip
        · exact hrest _
        · rw [List.drop_of_length_le (Nat.le_of_not_le hskip), List.append_nil]
          exact hrest stream

/-- **The stream is read without a fault.** -/
theorem cryptoStreamPrefix_eq (hpayload : payload.length ≤ isizeMax) :
    cryptoStreamPrefix payload = refuse (Gate.cryptoStreamPrefix payload) := by
  have hwalk : Refines FoundFragments (walk payload (passes payload) [] 0)
      (Gate.walk [] payload) :=
    refines_walk hpayload ⟨Nat.zero_le _, rfl⟩ (by rw [passes]; omega) (by simp)
  refine (hwalk.bind ?_).eq_refuse
  rintro fragments _ ⟨rfl, hbound⟩
  have hsorted : ∀ fragment ∈ fragments.insertionSort Reassembly.Before,
      fragment.1 ≤ varintMax := fun fragment hmem =>
    hbound fragment ((List.perm_insertionSort Reassembly.Before fragments).mem_iff.mp hmem)
  generalize fragments.insertionSort Reassembly.Before = sorted at hsorted
  have hextend : Refines Eq
      (do
        let stream ← extend [] sorted
        if stream.isEmpty then .error .refused else .ok stream)
      (let stream := Reassembly.extend [] sorted
      if stream.isEmpty then none else some stream) := by
    rw [extend_eq hsorted, Fallible.ok_bind]
    exact .ite fun _ => .ok rfl
  -- one fragment from the beginning is the stream
  cases sorted with
  | nil => exact hextend
  | cons first rest =>
      obtain ⟨offset, data⟩ := first
      cases offset with
      | zero =>
          cases rest with
          | nil => exact .ite fun _ => .ok rfl
          | cons second rest => exact hextend
      | succ offset => cases rest <;> exact hextend

end Indexed

end Gate

end Volto
