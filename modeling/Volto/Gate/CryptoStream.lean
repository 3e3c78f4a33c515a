import Volto.Lib.Reassembly
import Volto.Varint

/-!
# The CRYPTO Stream of an Initial Packet

`crypto_stream_prefix` of `gate.rs`. The frames of a decrypted payload are walked one after
another, each by the length its type implies, and the CRYPTO data found is assembled from
offset 0 on.

`takeFrame` reads one frame and has the three endings the walk has: the frame is all there, its
type is not one an Initial packet may carry, or it is cut short. The walk keeps what it has
found at the second and discards it at the third.

The walk's position is the rest of the payload, which is never past its end: every read is
checked against it. Lengths are natural numbers, since a varint is below `2 ^ 62` and the
supported targets have a 64-bit `usize`.

## Main results

* `Walks.walk_append`: a walk of whole frames goes on with what follows them.
* `walk_eq_none_iff`: the walk discards what it found exactly when the payload is cut short.
* `cryptoStreamPrefix_eq`: the single-fragment path and the general one agree.
-/

namespace Volto

namespace Gate

/-- A piece of the CRYPTO stream: its offset and its data. -/
abbrev Fragment := Reassembly.Fragment UInt8

/-- PADDING. -/
def framePadding : ℕ := 0x00

/-- PING. -/
def framePing : ℕ := 0x01

/-- ACK. -/
def frameAck : ℕ := 0x02

/-- ACK with ECN counts. -/
def frameAckEcn : ℕ := 0x03

/-- CRYPTO. -/
def frameCrypto : ℕ := 0x06

/-- CONNECTION_CLOSE of the transport. -/
def frameConnectionClose : ℕ := 0x1c

/-! ### One frame -/

/-- Advances past `count` varints, or `none` if they do not all fit. -/
def skipVarints : ℕ → List UInt8 → Option (List UInt8)
  | 0, buf => some buf
  | count + 1, buf => do
      let (_, buf) ← takeVarint buf
      skipVarints count buf

/-- The body of an ACK: two varints, the range count, the first range, two varints for each
further range, and three more for the ECN counts. -/
def skipAck (ecn : Bool) (buf : List UInt8) : Option (List UInt8) := do
  let buf ← skipVarints 2 buf
  let (ranges, buf) ← takeVarint buf
  let buf ← skipVarints 1 buf
  let buf ← skipVarints (ranges * 2) buf
  if ecn then skipVarints 3 buf else some buf

/-- The body of a CRYPTO frame: an offset, a length, and that much data. -/
def takeCrypto (buf : List UInt8) : Option (Fragment × List UInt8) := do
  let (offset, buf) ← takeVarint buf
  let (length, buf) ← takeVarint buf
  if buf.length < length then none else some ((offset, buf.take length), buf.drop length)

/-- The body of a CONNECTION_CLOSE: an error code, a frame type, and a reason with its length
before it. -/
def skipConnectionClose (buf : List UInt8) : Option (List UInt8) := do
  let buf ← skipVarints 2 buf
  let (reason, buf) ← takeVarint buf
  if buf.length < reason then none else some (buf.drop reason)

/-- How reading one frame ends. -/
inductive FrameRead
  /-- The frame is all there: the fragment it carries, if it is a CRYPTO frame, and what
  follows it. -/
  | frame (fragment : Option Fragment) (rest : List UInt8)
  /-- Not a frame type an Initial packet may carry. -/
  | foreign
  /-- The frame, or already its type, is not all there. -/
  | cut
deriving DecidableEq, Repr

namespace FrameRead

/-- A frame without a fragment, by what its body leaves. -/
def ofSkip : Option (List UInt8) → FrameRead
  | some rest => .frame none rest
  | none => .cut

/-- A CRYPTO frame, by what its body leaves. -/
def ofTake : Option (Fragment × List UInt8) → FrameRead
  | some (fragment, rest) => .frame (some fragment) rest
  | none => .cut

end FrameRead

/-- Reads one frame. -/
def takeFrame (buf : List UInt8) : FrameRead :=
  match takeVarint buf with
  | none => .cut
  | some (kind, rest) =>
      if kind = framePadding ∨ kind = framePing then .frame none rest
      else if kind = frameAck ∨ kind = frameAckEcn then .ofSkip (skipAck (kind = frameAckEcn) rest)
      else if kind = frameCrypto then .ofTake (takeCrypto rest)
      else if kind = frameConnectionClose then .ofSkip (skipConnectionClose rest)
      else .foreign

/-! ### What reading consumes, and what it does not look at -/

/-- Skipping varints does not lengthen the payload. -/
theorem skipVarints_length {count : ℕ} {buf rest : List UInt8}
    (h : skipVarints count buf = some rest) : rest.length ≤ buf.length := by
  induction count generalizing buf with
  | zero =>
      cases h
      exact Nat.le_refl _
  | succ count ih =>
      obtain ⟨⟨value, buf'⟩, htake, h⟩ := Option.bind_eq_some_iff.mp h
      exact (ih h).trans (takeVarint_length htake).le

/-- Varints are skipped alike when more bytes follow. -/
theorem skipVarints_append {count : ℕ} {buf rest : List UInt8}
    (h : skipVarints count buf = some rest) (s : List UInt8) :
    skipVarints count (buf ++ s) = some (rest ++ s) := by
  induction count generalizing buf with
  | zero =>
      cases h
      rfl
  | succ count ih =>
      obtain ⟨⟨value, buf'⟩, htake, h⟩ := Option.bind_eq_some_iff.mp h
      exact Option.bind_eq_some_iff.mpr ⟨_, takeVarint_append htake s, ih h⟩

/-- An ACK is no longer than what it is read from, and is read the same whatever follows. -/
theorem skipAck_append {ecn : Bool} {buf rest : List UInt8} (h : skipAck ecn buf = some rest) :
    rest.length ≤ buf.length ∧ ∀ s, skipAck ecn (buf ++ s) = some (rest ++ s) := by
  obtain ⟨buf₁, h₁, h⟩ := Option.bind_eq_some_iff.mp h
  obtain ⟨⟨ranges, buf₂⟩, h₂, h⟩ := Option.bind_eq_some_iff.mp h
  obtain ⟨buf₃, h₃, h⟩ := Option.bind_eq_some_iff.mp h
  obtain ⟨buf₄, h₄, h⟩ := Option.bind_eq_some_iff.mp h
  have hlast : rest.length ≤ buf₄.length ∧
      ∀ s, (if ecn then skipVarints 3 (buf₄ ++ s) else some (buf₄ ++ s)) = some (rest ++ s) := by
    split_ifs at h ⊢
    · exact ⟨skipVarints_length h, skipVarints_append h⟩
    · cases h
      exact ⟨Nat.le_refl _, fun s => rfl⟩
  constructor
  · have := takeVarint_length h₂
    have := skipVarints_length h₁
    have := skipVarints_length h₃
    have := skipVarints_length h₄
    omega
  · intro s
    refine Option.bind_eq_some_iff.mpr ⟨_, skipVarints_append h₁ s, ?_⟩
    refine Option.bind_eq_some_iff.mpr ⟨_, takeVarint_append h₂ s, ?_⟩
    refine Option.bind_eq_some_iff.mpr ⟨_, skipVarints_append h₃ s, ?_⟩
    exact Option.bind_eq_some_iff.mpr ⟨_, skipVarints_append h₄ s, hlast.2 s⟩

/-- A CONNECTION_CLOSE is skipped alike when more bytes follow. -/
theorem skipConnectionClose_append {buf rest : List UInt8}
    (h : skipConnectionClose buf = some rest) :
    rest.length ≤ buf.length ∧ ∀ s, skipConnectionClose (buf ++ s) = some (rest ++ s) := by
  obtain ⟨buf₁, h₁, h⟩ := Option.bind_eq_some_iff.mp h
  obtain ⟨⟨reason, buf₂⟩, h₂, h⟩ := Option.bind_eq_some_iff.mp h
  simp only at h
  split_ifs at h with hlong
  cases h
  constructor
  · have := takeVarint_length h₂
    have := skipVarints_length h₁
    rw [List.length_drop]
    omega
  · intro s
    refine Option.bind_eq_some_iff.mpr ⟨_, skipVarints_append h₁ s, ?_⟩
    refine Option.bind_eq_some_iff.mpr ⟨_, takeVarint_append h₂ s, ?_⟩
    simp only
    rw [if_neg (by rw [List.length_append]; omega), List.drop_append_of_le_length (by omega)]

/-- A CRYPTO frame is read alike when more bytes follow. -/
theorem takeCrypto_append {buf rest : List UInt8} {fragment : Fragment}
    (h : takeCrypto buf = some (fragment, rest)) :
    rest.length ≤ buf.length ∧ ∀ s, takeCrypto (buf ++ s) = some (fragment, rest ++ s) := by
  obtain ⟨⟨offset, buf₁⟩, h₁, h⟩ := Option.bind_eq_some_iff.mp h
  obtain ⟨⟨length, buf₂⟩, h₂, h⟩ := Option.bind_eq_some_iff.mp h
  simp only at h
  split_ifs at h with hlong
  cases h
  constructor
  · have := takeVarint_length h₁
    have := takeVarint_length h₂
    rw [List.length_drop]
    omega
  · intro s
    refine Option.bind_eq_some_iff.mpr ⟨_, takeVarint_append h₁ s, ?_⟩
    refine Option.bind_eq_some_iff.mpr ⟨_, takeVarint_append h₂ s, ?_⟩
    simp only
    rw [if_neg (by rw [List.length_append]; omega), List.take_append_of_le_length (by omega),
      List.drop_append_of_le_length (by omega)]

/-- A frame that carries no fragment was skipped, one that carries one was taken. -/
theorem FrameRead.ofSkip_eq_frame {r : Option (List UInt8)} {fragment : Option Fragment}
    {rest : List UInt8} (h : ofSkip r = .frame fragment rest) :
    fragment = none ∧ r = some rest := by
  cases r with
  | none => cases h
  | some rest' =>
      cases h
      exact ⟨rfl, rfl⟩

/-- A read that succeeded was a fragment and what is left. -/
theorem FrameRead.ofTake_eq_frame {r : Option (Fragment × List UInt8)}
    {fragment : Option Fragment} {rest : List UInt8} (h : ofTake r = .frame fragment rest) :
    ∃ piece, fragment = some piece ∧ r = some (piece, rest) := by
  cases r with
  | none => cases h
  | some r' =>
      cases h
      exact ⟨_, rfl, rfl⟩

/-- **A whole frame consumes at least a byte and is read the same whatever follows it.** -/
theorem takeFrame_append {buf rest : List UInt8} {fragment : Option Fragment}
    (h : takeFrame buf = .frame fragment rest) :
    rest.length < buf.length ∧ ∀ s, takeFrame (buf ++ s) = .frame fragment (rest ++ s) := by
  rw [takeFrame] at h
  cases htake : takeVarint buf with
  | none =>
      rw [htake] at h
      cases h
  | some r =>
      obtain ⟨kind, body⟩ := r
      rw [htake] at h
      have hlength := takeVarint_length htake
      have hagain : ∀ s, takeVarint (buf ++ s) = some (kind, body ++ s) := takeVarint_append htake
      simp only at h
      split_ifs at h with hpadding hack hcrypto hclose
      · cases h
        refine ⟨hlength, fun s => ?_⟩
        simp only [takeFrame, hagain, if_pos hpadding]
      · obtain ⟨rfl, hskip⟩ := FrameRead.ofSkip_eq_frame h
        obtain ⟨hle, happend⟩ := skipAck_append hskip
        refine ⟨hle.trans_lt hlength, fun s => ?_⟩
        simp only [takeFrame, hagain, if_neg hpadding, if_pos hack, happend, FrameRead.ofSkip]
      · obtain ⟨piece, rfl, htaken⟩ := FrameRead.ofTake_eq_frame h
        obtain ⟨hle, happend⟩ := takeCrypto_append htaken
        refine ⟨hle.trans_lt hlength, fun s => ?_⟩
        simp only [takeFrame, hagain, if_neg hpadding, if_neg hack, if_pos hcrypto, happend,
          FrameRead.ofTake]
      · obtain ⟨rfl, hskip⟩ := FrameRead.ofSkip_eq_frame h
        obtain ⟨hle, happend⟩ := skipConnectionClose_append hskip
        refine ⟨hle.trans_lt hlength, fun s => ?_⟩
        simp only [takeFrame, hagain, if_neg hpadding, if_neg hack, if_neg hcrypto,
          if_pos hclose, happend, FrameRead.ofSkip]

/-! ### The walk -/

/-- Walks the frames, with the fragments found so far. -/
def walk (fragments : List Fragment) : List UInt8 → Option (List Fragment)
  | [] => some fragments
  | first :: tail =>
      match _hframe : takeFrame (first :: tail) with
      | .frame fragment rest => walk (fragments ++ fragment.toList) rest
      | .foreign => some fragments
      | .cut => none
termination_by buf => buf.length
decreasing_by exact (takeFrame_append _hframe).1

/-- The CRYPTO stream bytes an Initial packet carries from offset 0 onwards. -/
def cryptoStreamPrefix (payload : List UInt8) : Option (List UInt8) := do
  let fragments ← walk [] payload
  match fragments.insertionSort Reassembly.Before with
  | [(0, data)] => if data.isEmpty then none else some data
  | fragments =>
      let stream := Reassembly.extend [] fragments
      if stream.isEmpty then none else some stream

/-- Whole frames, one after another, and the fragments they carry. -/
inductive Walks : List UInt8 → List Fragment → Prop
  | nil : Walks [] []
  | cons {buf rest : List UInt8} {fragment : Option Fragment} {fragments : List Fragment}
      (hframe : takeFrame buf = .frame fragment rest) (h : Walks rest fragments) :
      Walks buf (fragment.toList ++ fragments)

/-- After whole frames, a frame that is cut short. -/
inductive CutShort : List UInt8 → Prop
  | here {buf : List UInt8} (hne : buf ≠ []) (hcut : takeFrame buf = .cut) : CutShort buf
  | later {buf rest : List UInt8} {fragment : Option Fragment}
      (hframe : takeFrame buf = .frame fragment rest) (h : CutShort rest) : CutShort buf

/-- One step of the walk. -/
theorem walk_of_ne_nil {buf : List UInt8} (hne : buf ≠ []) (fragments : List Fragment) :
    walk fragments buf =
      match takeFrame buf with
      | .frame fragment rest => walk (fragments ++ fragment.toList) rest
      | .foreign => some fragments
      | .cut => none := by
  cases buf with
  | nil => exact (hne rfl).elim
  | cons first tail =>
      rw [walk]
      split <;> rename_i hframe <;> rw [hframe]

/-- A frame is not read from nothing. -/
theorem ne_nil_of_takeFrame {buf rest : List UInt8} {fragment : Option Fragment}
    (h : takeFrame buf = .frame fragment rest) : buf ≠ [] := by
  rintro rfl
  cases h

/-- The walk goes on after a whole frame. -/
theorem walk_of_frame {buf rest : List UInt8} {fragment : Option Fragment}
    (h : takeFrame buf = .frame fragment rest) (fragments : List Fragment) :
    walk fragments buf = walk (fragments ++ fragment.toList) rest := by
  rw [walk_of_ne_nil (ne_nil_of_takeFrame h), h]

/-- **A walk of whole frames goes on with what follows them.** -/
theorem Walks.walk_append {buf : List UInt8} {fragments : List Fragment} (h : Walks buf fragments)
    (found : List Fragment) (s : List UInt8) :
    walk found (buf ++ s) = walk (found ++ fragments) s := by
  induction h generalizing found with
  | nil => rw [List.nil_append, List.append_nil]
  | cons hframe h ih =>
      rw [walk_of_frame ((takeFrame_append hframe).2 s), ih, List.append_assoc]

/-- What was found before does not matter to the walk. -/
theorem walk_eq_map (found : List Fragment) (buf : List UInt8) :
    walk found buf = (walk [] buf).map (found ++ ·) := by
  induction hlength : buf.length using Nat.strong_induction_on generalizing found buf with
  | _ n ih =>
      cases hbuf : buf with
      | nil => rw [walk, walk, Option.map_some, List.append_nil]
      | cons first tail =>
          rw [← hbuf, walk_of_ne_nil (by rw [hbuf]; exact List.cons_ne_nil _ _),
            walk_of_ne_nil (by rw [hbuf]; exact List.cons_ne_nil _ _)]
          cases hframe : takeFrame buf with
          | frame fragment rest =>
              have hlt : rest.length < n := hlength ▸ (takeFrame_append hframe).1
              simp only
              rw [ih _ hlt (found ++ fragment.toList) rest rfl,
                ih _ hlt ([] ++ fragment.toList) rest rfl, Option.map_map]
              congr 1
              funext fragments
              simp only [Function.comp_apply, List.nil_append, List.append_assoc]
          | foreign =>
              simp only [Option.map_some, List.append_nil]
          | cut => rfl

/-- **The walk discards what it found exactly when the payload is cut short.** -/
theorem walk_eq_none_iff (found : List Fragment) {buf : List UInt8} :
    walk found buf = none ↔ CutShort buf := by
  constructor
  · intro h
    induction hlength : buf.length using Nat.strong_induction_on generalizing found buf with
    | _ n ih =>
        cases hbuf : buf with
        | nil =>
            rw [hbuf, walk] at h
            cases h
        | cons first tail =>
            have hne : buf ≠ [] := by
              rw [hbuf]
              exact List.cons_ne_nil _ _
            rw [← hbuf]
            rw [walk_of_ne_nil hne] at h
            cases hframe : takeFrame buf with
            | frame fragment rest =>
                rw [hframe] at h
                exact .later hframe (ih _ (hlength ▸ (takeFrame_append hframe).1) _ h rfl)
            | foreign =>
                rw [hframe] at h
                cases h
            | cut => exact .here hne hframe
  · intro h
    induction h generalizing found with
    | here hne hcut => rw [walk_of_ne_nil hne, hcut]
    | later hframe h ih => rw [walk_of_frame hframe, ih]

/-- The fragments of the whole frames at the start of a payload, up to the first frame that is
not one. -/
def fragmentsOf (buf : List UInt8) : List Fragment :=
  (walk [] buf).getD []

/-- **The single-fragment path and the general one agree**: the result is the assembled
stream, if it is not empty. -/
theorem cryptoStreamPrefix_eq (payload : List UInt8) :
    cryptoStreamPrefix payload =
      (walk [] payload).bind fun fragments =>
        if Reassembly.assemble fragments = [] then none
        else some (Reassembly.assemble fragments) := by
  rw [cryptoStreamPrefix]
  cases walk [] payload with
  | none => rfl
  | some fragments =>
      change (match fragments.insertionSort Reassembly.Before with
        | [(0, data)] => if data.isEmpty then none else some data
        | fragments =>
            let stream := Reassembly.extend [] fragments
            if stream.isEmpty then none else some stream) = _
      rw [Option.bind_some, Reassembly.assemble]
      split
      · rename_i data hsorted
        rw [hsorted]
        simp [Reassembly.extend]
      · simp only [List.isEmpty_iff]

end Gate

end Volto
