import Volto.Gate.CryptoStream

/-!
# The Frames of an Initial Packet

The frames that an Initial packet may carry, told by how they are written and not by how they are
read: a varint in any of its four forms, an ACK with two varints for each of its further ranges, a
CRYPTO frame with a piece of a stream. A payload that is any sequence of them is walked to its end,
and what `crypto_stream_prefix` returns is the start of the stream as far as the pieces cover it.

## Main results

* `IsFrame.takeFrame`: a frame that is written is read, whatever follows it.
* `crypto_stream_prefix_assembles`: the longest start of the stream without a gap.
-/

namespace Volto

namespace Gate

/-! ### What is written -/

/-- So many varints, one after another. -/
inductive Varints : ℕ → List UInt8 → Prop
  | nil : Varints 0 []
  | cons {count value : ℕ} {bytes rest : List UInt8} (h : IsVarint value bytes)
      (hrest : Varints count rest) : Varints (count + 1) (bytes ++ rest)

/-- A frame, with the fragment that a CRYPTO frame carries. -/
inductive IsFrame : List UInt8 → Option Fragment → Prop
  | padding {kind : List UInt8} (hkind : IsVarint framePadding kind) : IsFrame kind none
  | ping {kind : List UInt8} (hkind : IsVarint framePing kind) : IsFrame kind none
  /-- Largest Acknowledged and ACK Delay, the range count, the first range, and two varints for
  each further one. -/
  | ack {kind start count first ranges : List UInt8} {further : ℕ}
      (hkind : IsVarint frameAck kind) (hstart : Varints 2 start) (hcount : IsVarint further count)
      (hfirst : Varints 1 first) (hranges : Varints (further * 2) ranges) :
      IsFrame (kind ++ (start ++ (count ++ (first ++ ranges)))) none
  /-- The same, with three counts at the end. -/
  | ackEcn {kind start count first ranges counts : List UInt8} {further : ℕ}
      (hkind : IsVarint frameAckEcn kind) (hstart : Varints 2 start)
      (hcount : IsVarint further count) (hfirst : Varints 1 first)
      (hranges : Varints (further * 2) ranges) (hcounts : Varints 3 counts) :
      IsFrame (kind ++ (start ++ (count ++ (first ++ (ranges ++ counts))))) none
  /-- An error code and a frame type, and a reason after its length. -/
  | connectionClose {kind start length reason : List UInt8}
      (hkind : IsVarint frameConnectionClose kind) (hstart : Varints 2 start)
      (hlength : IsVarint reason.length length) :
      IsFrame (kind ++ (start ++ (length ++ reason))) none
  /-- An offset, and data after its length. -/
  | crypto {kind start length data : List UInt8} {offset : ℕ} (hkind : IsVarint frameCrypto kind)
      (hstart : IsVarint offset start) (hlength : IsVarint data.length length) :
      IsFrame (kind ++ (start ++ (length ++ data))) (some (offset, data))

/-- A frame of a packet whose CRYPTO frames are pieces of one stream. -/
structure StreamFrame (stream : List UInt8) where
  bytes : List UInt8
  fragment : Option Fragment
  isFrame : IsFrame bytes fragment
  carried : ∀ piece ∈ fragment, Reassembly.Carried stream piece

/-- A value below 64 is its own varint. -/
theorem isVarint_short {value : ℕ} (h : value < 64) : IsVarint value [UInt8.ofNat value] :=
  ⟨0, 0, by decide, rfl, h, by simp [BigEndian.toBytes]⟩

/-- A CRYPTO frame with a short offset and a short piece of the stream. -/
def StreamFrame.crypto {stream : List UInt8} (offset : ℕ) (data : List UInt8)
    (hoffset : offset < 64) (hlength : data.length < 64)
    (hcarried : Reassembly.Carried stream (offset, data)) :
    StreamFrame stream where
  bytes := [UInt8.ofNat frameCrypto] ++
    ([UInt8.ofNat offset] ++ ([UInt8.ofNat data.length] ++ data))
  fragment := some (offset, data)
  isFrame := .crypto (isVarint_short (by decide)) (isVarint_short hoffset) (isVarint_short hlength)
  carried piece hpiece := by
    obtain rfl := Option.mem_some.mp hpiece
    exact hcarried

/-- The payload of a packet. -/
def payload {stream : List UInt8} (frames : List (StreamFrame stream)) : List UInt8 :=
  frames.flatMap StreamFrame.bytes

/-- The pieces in a packet. -/
def pieces {stream : List UInt8} (frames : List (StreamFrame stream)) : List Fragment :=
  frames.flatMap fun frame => frame.fragment.toList

/-! ### What is read back -/

/-- As many varints are skipped as there are. -/
theorem Varints.skipVarints {count : ℕ} {bytes : List UInt8} (h : Varints count bytes)
    (rest : List UInt8) : skipVarints count (bytes ++ rest) = some rest := by
  induction h with
  | nil => rfl
  | cons h _ ih =>
      rw [List.append_assoc]
      exact Option.bind_eq_some_iff.mpr ⟨_, h.takeVarint _, ih⟩

/-- The first varint of a frame tells its kind. -/
theorem takeFrame_of_kind {kind : ℕ} {bytes : List UInt8} (h : IsVarint kind bytes)
    (rest : List UInt8) :
    takeFrame (bytes ++ rest) =
      if kind = framePadding ∨ kind = framePing then .frame none rest
      else if kind = frameAck ∨ kind = frameAckEcn then .ofSkip (skipAck (kind = frameAckEcn) rest)
      else if kind = frameCrypto then .ofTake (takeCrypto rest)
      else if kind = frameConnectionClose then .ofSkip (skipConnectionClose rest)
      else .foreign := by
  rw [takeFrame, h.takeVarint]

section

variable {start count first ranges counts length data : List UInt8} {further offset : ℕ}

/-- An ACK is skipped to its end, the ECN counts included. -/
theorem skipAck_append_ranges {ecn : Bool} (hstart : Varints 2 start)
    (hcount : IsVarint further count) (hfirst : Varints 1 first)
    (hranges : Varints (further * 2) ranges) (rest : List UInt8) :
    skipAck ecn (start ++ (count ++ (first ++ (ranges ++ rest)))) =
      if ecn then skipVarints 3 rest else some rest := by
  simp only [skipAck, hstart.skipVarints, hcount.takeVarint, hfirst.skipVarints,
    hranges.skipVarints, Option.bind_eq_bind, Option.bind_some]

/-- A CONNECTION_CLOSE is skipped with its reason. -/
theorem skipConnectionClose_append_reason (hstart : Varints 2 start)
    (hlength : IsVarint data.length length) (rest : List UInt8) :
    skipConnectionClose (start ++ (length ++ (data ++ rest))) = some rest := by
  have hlong : ¬(data ++ rest).length < data.length := by
    rw [List.length_append]
    omega
  simp only [skipConnectionClose, hstart.skipVarints, hlength.takeVarint, Option.bind_eq_bind,
    Option.bind_some, if_neg hlong, List.drop_left]

/-- A CRYPTO frame is read as its offset and data. -/
theorem takeCrypto_append_data (hstart : IsVarint offset start)
    (hlength : IsVarint data.length length) (rest : List UInt8) :
    takeCrypto (start ++ (length ++ (data ++ rest))) = some ((offset, data), rest) := by
  have hlong : ¬(data ++ rest).length < data.length := by
    rw [List.length_append]
    omega
  simp only [takeCrypto, hstart.takeVarint, hlength.takeVarint, Option.bind_eq_bind,
    Option.bind_some, if_neg hlong, List.take_left, List.drop_left]

end

/-- **A frame that is written is read**, whatever follows it. -/
theorem IsFrame.takeFrame {bytes : List UInt8} {fragment : Option Fragment}
    (h : IsFrame bytes fragment) (rest : List UInt8) :
    takeFrame (bytes ++ rest) = .frame fragment rest := by
  cases h with
  | padding hkind => rw [takeFrame_of_kind hkind, if_pos (.inl rfl)]
  | ping hkind => rw [takeFrame_of_kind hkind, if_pos (.inr rfl)]
  | ack hkind hstart hcount hfirst hranges =>
      simp only [List.append_assoc]
      rw [takeFrame_of_kind hkind, if_neg (by decide), if_pos (.inl rfl),
        skipAck_append_ranges hstart hcount hfirst hranges]
      rfl
  | ackEcn hkind hstart hcount hfirst hranges hcounts =>
      simp only [List.append_assoc]
      rw [takeFrame_of_kind hkind, if_neg (by decide), if_pos (.inr rfl),
        skipAck_append_ranges hstart hcount hfirst hranges, hcounts.skipVarints]
      rfl
  | connectionClose hkind hstart hlength =>
      simp only [List.append_assoc]
      rw [takeFrame_of_kind hkind, if_neg (by decide), if_neg (by decide), if_neg (by decide),
        if_pos rfl, skipConnectionClose_append_reason hstart hlength]
      rfl
  | crypto hkind hstart hlength =>
      simp only [List.append_assoc]
      rw [takeFrame_of_kind hkind, if_neg (by decide), if_neg (by decide), if_pos rfl,
        takeCrypto_append_data hstart hlength]
      rfl

/-! ### A packet -/

section

variable {stream : List UInt8}

/-- A payload of frames is walked to its end. -/
theorem walks_payload (frames : List (StreamFrame stream)) :
    Walks (payload frames) (pieces frames) := by
  induction frames with
  | nil => exact .nil
  | cons frame frames ih =>
      rw [payload, pieces, List.flatMap_cons, List.flatMap_cons]
      exact .cons (frame.isFrame.takeFrame _) ih

/-- The walk finds the pieces of all the frames. -/
theorem walk_payload (frames : List (StreamFrame stream)) :
    walk [] (payload frames) = some (pieces frames) := by
  have hwalk := (walks_payload frames).walk_append [] []
  rw [List.append_nil, List.nil_append] at hwalk
  rw [hwalk, walk]

/-- Every piece is carried by the stream. -/
theorem carried_of_mem_pieces {frames : List (StreamFrame stream)} {piece : Fragment}
    (h : piece ∈ pieces frames) : Reassembly.Carried stream piece := by
  obtain ⟨frame, -, hpiece⟩ := List.mem_flatMap.mp h
  exact frame.carried piece (Option.mem_toList.mp hpiece)

/-- The single piece and the sorted pieces are assembled to the same. -/
theorem cryptoStreamPrefix_payload (frames : List (StreamFrame stream)) :
    cryptoStreamPrefix (payload frames) =
      if Reassembly.assemble (pieces frames) = [] then none
      else some (Reassembly.assemble (pieces frames)) := by
  rw [cryptoStreamPrefix_eq, walk_payload, Option.bind_some]

/-- **The prefix found is the longest that the pieces cover.** -/
theorem exists_cryptoStreamPrefix (frames : List (StreamFrame stream)) :
    ∃ n ≤ stream.length,
      IsGreatest {n | ∀ k < n, Reassembly.Covered (pieces frames) k} n ∧
      cryptoStreamPrefix (payload frames) = if n = 0 then none else some (stream.take n) := by
  obtain ⟨n, hn, hgreatest, hassemble⟩ :=
    Reassembly.assemble_of_carried fun piece hmem => carried_of_mem_pieces hmem
  refine ⟨n, hn, hgreatest, ?_⟩
  have hempty : stream.take n = [] ↔ n = 0 := by
    rw [← List.length_eq_zero_iff, List.length_take_of_le hn]
  rw [cryptoStreamPrefix_payload, hassemble]
  simp only [hempty]

/-- The same frames in another order cover the same. -/
theorem covered_of_perm {frames frames' : List (StreamFrame stream)} (h : frames'.Perm frames)
    (k : ℕ) : Reassembly.Covered (pieces frames') k ↔ Reassembly.Covered (pieces frames) k := by
  have hmem : ∀ piece, piece ∈ pieces frames' ↔ piece ∈ pieces frames :=
    fun piece => (h.flatMap_right _).mem_iff
  simp only [Reassembly.Covered, hmem]

/-- **The start of the stream, as far as the pieces cover it without a gap**, or nothing when they
do not cover its first byte. One piece at the start is returned as it is, which is the same, and
the order of the frames does not matter. -/
theorem crypto_stream_prefix_assembles (stream : List UInt8)
    (frames : List (StreamFrame stream)) :
    (∃ n ≤ stream.length,
      IsGreatest {n | ∀ k < n, Reassembly.Covered (pieces frames) k} n ∧
      cryptoStreamPrefix (payload frames) = if n = 0 then none else some (stream.take n)) ∧
    (cryptoStreamPrefix (payload frames) =
      if Reassembly.assemble (pieces frames) = [] then none
      else some (Reassembly.assemble (pieces frames))) ∧
    ∀ frames' : List (StreamFrame stream), frames'.Perm frames →
      cryptoStreamPrefix (payload frames') = cryptoStreamPrefix (payload frames) := by
  obtain ⟨n, hn, hgreatest, hresult⟩ := exists_cryptoStreamPrefix frames
  refine ⟨⟨n, hn, hgreatest, hresult⟩, cryptoStreamPrefix_payload frames, fun frames' hperm => ?_⟩
  obtain ⟨n', -, hgreatest', hresult'⟩ := exists_cryptoStreamPrefix frames'
  simp only [covered_of_perm hperm] at hgreatest'
  rw [hresult, hresult', hgreatest'.unique hgreatest]

/-- Two pieces of a stream that overlap in a byte, in either order. -/
theorem crypto_stream_prefix_assembles_overlapping :
    let first : StreamFrame [1, 2, 3, 4, 5] := .crypto 0 [1, 2, 3] (by decide) (by decide) ⟨_, rfl⟩
    let second : StreamFrame [1, 2, 3, 4, 5] := .crypto 2 [3, 4, 5] (by decide) (by decide) ⟨_, rfl⟩
    cryptoStreamPrefix (payload [first, second]) = some [1, 2, 3, 4, 5] ∧
      cryptoStreamPrefix (payload [second, first]) = some [1, 2, 3, 4, 5] := by
  intro first second
  obtain ⟨-, hassembled, horder⟩ := crypto_stream_prefix_assembles _ [first, second]
  have hwhole : cryptoStreamPrefix (payload [first, second]) = some [1, 2, 3, 4, 5] :=
    hassembled.trans (by decide)
  exact ⟨hwhole, (horder _ (List.Perm.swap first second [])).trans hwhole⟩

end

end Gate

end Volto
