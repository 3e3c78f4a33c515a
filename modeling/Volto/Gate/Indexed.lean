import Volto.Gate.Judge
import Volto.Lib.Checked

/-!
# The Gate's Arithmetic

The packet arithmetic of `gate.rs` as the source has it: positions in a datagram, ranges between
them, sums of lengths that a peer chose. What can go wrong is written out, an index or a range
outside of its buffer, a sum or a difference outside of the machine's numbers, a loop that goes on,
and every function is shown to be the partial function that `Judge` has in its place, on every
datagram there can be. So nothing goes wrong, and the two models are one.

What the header promises about a datagram is what the opening of the packet relies on
(`InBounds`). The cipher may report any sizes.

## Main results

* `inBounds_of_parse`: where a header that was read lies.
* `parse_eq`, `decrypt_eq`: the header and the packet are read without a fault.
-/

namespace Volto

namespace Gate

namespace Indexed

open Checked

/-! ### The header -/

/-- `peek_varint`. -/
def peekVarint (buf : List UInt8) : Except Stop (ℕ × ℕ) := do
  let first ← refuse buf[0]?
  let length := 1 <<< (first.toNat >>> 6)
  if buf.length < length then .error .refused
  else do
    let bytes ← slice buf 1 length
    .ok (BigEndian.ofBytes (first.toNat &&& 0x3f) bytes, length)

/-- The varint at a position and the position after it: `peek_varint(buf.get(at..)?)?` and
`at.checked_add(read)?`. -/
def varintAt (buf : List UInt8) (start : ℕ) : Except Stop (ℕ × ℕ) := do
  let rest ← refuse (getFrom buf start)
  let (value, read) ← peekVarint rest
  let stop ← refuse (checkedAdd addressMax start read)
  .ok (value, stop)

/-- `usize::try_from`. -/
def tryFrom (value : ℕ) : Option ℕ :=
  if value ≤ addressMax then some value else none

/-- `InitialHeader::parse` from the Token Length on. -/
def parseLengths (datagram : List UInt8) (dcidStart dcidEnd start : ℕ) :
    Except Stop InitialHeader := do
  let (tokenLength, start) ← varintAt datagram start
  let tokenLength ← refuse (tryFrom tokenLength)
  let start ← refuse (checkedAdd addressMax start tokenLength)
  if datagram.length < start then .error .refused
  else do
    let (length, packetNumberOffset) ← varintAt datagram start
    let length ← refuse (tryFrom length)
    let packetEnd ← refuse (checkedAdd addressMax packetNumberOffset length)
    if datagram.length < packetEnd then .error .refused
    else .ok ⟨dcidStart, dcidEnd, packetNumberOffset, packetEnd⟩

/-- `InitialHeader::parse`. -/
def parse (datagram : List UInt8) : Except Stop InitialHeader := do
  let dcidLength ← refuse datagram[dcidLengthOffset]?
  let dcidStart ← add addressMax dcidLengthOffset 1
  if maxConnectionId < dcidLength.toNat then .error .refused
  else do
    let dcidEnd ← refuse (checkedAdd addressMax dcidStart dcidLength.toNat)
    let _ ← refuse (getRange datagram dcidStart dcidEnd)
    let scidLength ← refuse datagram[dcidEnd]?
    let start ← add addressMax dcidEnd 1
    if maxConnectionId < scidLength.toNat then .error .refused
    else do
      let start ← refuse (checkedAdd addressMax start scidLength.toNat)
      if datagram.length < start then .error .refused
      else parseLengths datagram dcidStart dcidEnd start

/-- `ConnectionId::new`, which takes no more than the longest connection ID. -/
def connectionId (bytes : List UInt8) : Except Stop (List UInt8) :=
  if bytes.length ≤ maxConnectionId then .ok bytes else .error (.fault .outOfRange)

/-- `Judge::decrypt`, once header protection is removed. -/
def openPacket (keys : Keys) (datagram : List UInt8) (header : InitialHeader)
    (head : List UInt8) : Except Stop (List UInt8) := do
  let first ← index head 0
  let numberLength := (first.toNat &&& 0x03) + 1
  let numberEnd ← refuse (checkedAdd addressMax header.packetNumberOffset numberLength)
  if header.packetEnd < numberEnd then .error .refused
  else do
    let bytes ← slice head header.packetNumberOffset numberEnd
    let number := BigEndian.ofBytes 0 bytes
    let left ← sub header.packetEnd numberEnd
    if left < keys.tagLen then .error .refused
    else do
      let frames ← slice datagram numberEnd header.packetEnd
      let associated ← slice head 0 numberEnd
      refuse (keys.packetDecrypt number associated frames)

/-- `Judge::decrypt`. -/
def decrypt (crypto : Crypto) (datagram : List UInt8) (header : InitialHeader) :
    Except Stop (List UInt8) := do
  let numberEndLimit ← refuse (checkedAdd addressMax header.packetNumberOffset 4)
  if header.packetEnd < numberEndLimit then .error .refused
  else do
    let dcid ← slice datagram header.dcidStart header.dcidEnd
    let id ← connectionId dcid
    let keys ← refuse (crypto.initialKeys quicV1 id)
    let sampleEnd ← refuse (checkedAdd addressMax numberEndLimit keys.sampleSize)
    if header.packetEnd < sampleEnd then .error .refused
    else do
      let head ← slice datagram 0 sampleEnd
      openPacket keys datagram header (keys.headerDecrypt header.packetNumberOffset head)

/-! ### Reading without a fault -/

/-- A varint is read by index as off the front. -/
theorem peekVarint_eq (buf : List UInt8) : peekVarint buf = refuse (Volto.peekVarint buf) := by
  cases buf with
  | nil => rfl
  | cons first rest =>
      have hlength : 1 ≤ 1 <<< (first.toNat >>> 6) := by
        rw [Nat.one_shiftLeft]
        exact Nat.one_le_two_pow
      refine ite_refuse fun hlong => ?_
      rw [slice_of_le hlength (Nat.le_of_not_lt hlong), Fallible.ok_bind,
        ← Nat.sub_add_cancel hlength, List.take_succ_cons]
      rfl

/-- A varint fits the index type. -/
theorem tryFrom_of_le {value : ℕ} (h : value ≤ varintMax) : tryFrom value = some value :=
  if_pos (h.trans (by decide))

/-- A varint at a position within a buffer. -/
theorem varintAt_eq {buf : List UInt8} (hbuf : buf.length ≤ isizeMax) {start : ℕ}
    (hstart : start ≤ buf.length) :
    varintAt buf start =
      refuse ((Volto.peekVarint (buf.drop start)).map fun (value, read) =>
        (value, start + read)) := by
  rw [varintAt, getFrom_of_le hstart, refuse_some, Fallible.ok_bind, peekVarint_eq]
  cases hpeek : Volto.peekVarint (buf.drop start) with
  | none => rfl
  | some r =>
      obtain ⟨value, read⟩ := r
      obtain ⟨-, -, hread, -⟩ := peekVarint_bounds hpeek
      rw [List.length_drop] at hread
      have hmax : isizeMax ≤ addressMax := by decide
      rw [refuse_some, Fallible.ok_bind]
      simp only
      rw [checkedAdd_of_le (by omega)]
      rfl

/-- The lengths of the header are read by index as off the front. -/
theorem parseLengths_eq {datagram : List UInt8} (hdatagram : datagram.length ≤ isizeMax)
    {dcidEnd start : ℕ} (hstart : start ≤ datagram.length) :
    parseLengths datagram (dcidLengthOffset + 1) dcidEnd start =
      refuse (InitialHeader.parseLengths datagram dcidEnd start) := by
  have hmax : isizeMax + varintMax ≤ addressMax := by decide
  rw [parseLengths, InitialHeader.parseLengths, varintAt_eq hdatagram hstart]
  cases htoken : Volto.peekVarint (datagram.drop start) with
  | none => rfl
  | some r =>
      obtain ⟨tokenLength, read⟩ := r
      obtain ⟨-, -, hread, hvalue⟩ := peekVarint_bounds htoken
      rw [List.length_drop] at hread
      rw [Option.map_some, refuse_some, Fallible.ok_bind]
      simp only [Option.bind_eq_bind, Option.bind_some]
      rw [tryFrom_of_le hvalue, refuse_some, Fallible.ok_bind, checkedAdd_of_le (by omega),
        refuse_some, Fallible.ok_bind]
      refine ite_refuse fun hlong => ?_
      rw [varintAt_eq hdatagram (Nat.le_of_not_lt hlong)]
      cases hlength : Volto.peekVarint (datagram.drop (start + read + tokenLength)) with
      | none => rfl
      | some r =>
          obtain ⟨length, read'⟩ := r
          obtain ⟨-, -, hread', hvalue'⟩ := peekVarint_bounds hlength
          rw [List.length_drop] at hread'
          rw [Option.map_some, refuse_some, Fallible.ok_bind]
          simp only [Option.bind_some]
          rw [tryFrom_of_le hvalue', refuse_some, Fallible.ok_bind, checkedAdd_of_le (by omega),
            refuse_some, Fallible.ok_bind]
          exact ite_refuse fun _ => rfl

/-- **The header is read without a fault.** -/
theorem parse_eq {datagram : List UInt8} (hdatagram : datagram.length ≤ isizeMax) :
    parse datagram = refuse (InitialHeader.parse datagram) := by
  have hmax : isizeMax + 1 + maxConnectionId ≤ addressMax := by decide
  have hoffset : dcidLengthOffset + 1 + maxConnectionId ≤ addressMax := by decide
  rw [parse, InitialHeader.parse]
  refine refuse_bind fun dcidLength hdcid => ?_
  rw [add_of_le (by decide), Fallible.ok_bind]
  refine ite_refuse fun hshort => ?_
  rw [checkedAdd_of_le (by omega), refuse_some, Fallible.ok_bind]
  simp only
  by_cases hend : datagram.length < dcidLengthOffset + 1 + dcidLength.toNat
  · rw [if_pos hend, getRange, if_neg (by omega)]
    rfl
  · rw [if_neg hend, getRange, if_pos (by omega), refuse_some, Fallible.ok_bind]
    refine refuse_bind fun scidLength hscid => ?_
    have hlt := (List.getElem?_eq_some_iff.mp hscid).1
    rw [add_of_le (by omega), Fallible.ok_bind]
    refine ite_refuse fun hshort' => ?_
    rw [checkedAdd_of_le (by omega), refuse_some, Fallible.ok_bind]
    exact ite_refuse fun hlong => parseLengths_eq hdatagram (Nat.le_of_not_lt hlong)

/-! ### Opening without a fault -/

/-- **Where a header lies** in its datagram. -/
structure InBounds (datagram : List UInt8) (header : InitialHeader) : Prop where
  dcidStart : dcidLengthOffset + 1 ≤ header.dcidStart
  dcidEnd : header.dcidStart ≤ header.dcidEnd
  packetNumberOffset : header.dcidEnd ≤ header.packetNumberOffset
  packetEnd : header.packetNumberOffset ≤ header.packetEnd
  length : header.packetEnd ≤ datagram.length
  dcid : header.dcidEnd - header.dcidStart ≤ maxConnectionId

/-- The lengths of a header lie within the datagram. -/
theorem inBounds_of_parseLengths {datagram : List UInt8} {dcidEnd start : ℕ}
    {header : InitialHeader} (h : InitialHeader.parseLengths datagram dcidEnd start = some header)
    (hdcid : dcidLengthOffset + 1 ≤ dcidEnd)
    (hshort : dcidEnd - (dcidLengthOffset + 1) ≤ maxConnectionId) (hstart : dcidEnd ≤ start) :
    InBounds datagram header := by
  obtain ⟨⟨tokenLength, read⟩, -, h⟩ := Option.bind_eq_some_iff.mp h
  simp only at h
  split_ifs at h with hlong
  obtain ⟨⟨length, read'⟩, -, h⟩ := Option.bind_eq_some_iff.mp h
  simp only at h
  split_ifs at h with hlong'
  cases h
  exact ⟨Nat.le_refl _, hdcid, by simp only; omega, by simp only; omega, by simp only; omega,
    hshort⟩

/-- **A header that was read lies within the datagram.** -/
theorem inBounds_of_parse {datagram : List UInt8} {header : InitialHeader}
    (h : InitialHeader.parse datagram = some header) : InBounds datagram header := by
  obtain ⟨dcidLength, -, h⟩ := Option.bind_eq_some_iff.mp h
  simp only at h
  split_ifs at h with hshort hend
  obtain ⟨scidLength, -, h⟩ := Option.bind_eq_some_iff.mp h
  split_ifs at h with hshort' hend'
  exact inBounds_of_parseLengths h (by omega) (by omega) (by omega)

/-- What is assumed of the cipher: header protection leaves lengths as they are, and opening a
payload returns no more than it was given. -/
structure Sound (crypto : Crypto) : Prop where
  header : ∀ version id keys, crypto.initialKeys version id = some keys →
    ∀ offset head, (keys.headerDecrypt offset head).length = head.length
  packet : ∀ version id keys, crypto.initialKeys version id = some keys →
    ∀ number head payload frames, keys.packetDecrypt number head payload = some frames →
      frames.length ≤ payload.length

/-- A packet is opened by index as off the front. -/
theorem openPacket_eq {keys : Keys} {datagram head : List UInt8} {header : InitialHeader}
    (hdatagram : datagram.length ≤ isizeMax) (hbounds : InBounds datagram header)
    (hhead : header.packetNumberOffset + 4 ≤ head.length) :
    openPacket keys datagram header head =
      refuse
        (let numberLength := ((head[0]?.getD 0).toNat &&& 0x03) + 1
        let numberEnd := header.packetNumberOffset + numberLength
        if header.packetEnd < numberEnd then none
        else
          let number := BigEndian.ofBytes 0 ((head.take numberEnd).drop header.packetNumberOffset)
          if header.packetEnd - numberEnd < keys.tagLen then none
          else
            keys.packetDecrypt number (head.take numberEnd)
              ((datagram.take header.packetEnd).drop numberEnd)) := by
  obtain ⟨first, hfirst⟩ : ∃ first, head[0]? = some first :=
    ⟨_, List.getElem?_eq_getElem (by omega)⟩
  have hmax : isizeMax + 4 ≤ addressMax := by decide
  have hnumber : (first.toNat &&& 0x03) + 1 ≤ 4 := by
    have := Nat.and_le_right (n := first.toNat) (m := 0x03)
    omega
  have hend := hbounds.packetEnd
  have hlength := hbounds.length
  rw [openPacket, index_of_getElem? hfirst, Fallible.ok_bind, hfirst, Option.getD_some]
  simp only
  rw [checkedAdd_of_le (by omega), refuse_some, Fallible.ok_bind]
  refine ite_refuse fun hlong => ?_
  rw [slice_of_le (by omega) (by omega), Fallible.ok_bind, sub_of_le (by omega), Fallible.ok_bind]
  refine ite_refuse fun htag => ?_
  rw [slice_of_le (by omega) hlength, Fallible.ok_bind, slice_of_le (Nat.zero_le _) (by omega),
    Fallible.ok_bind, List.drop_zero]

/-- **A packet is opened without a fault**, whatever sizes the cipher reports. -/
theorem decrypt_eq {crypto : Crypto} (hcrypto : Sound crypto) {datagram : List UInt8}
    {header : InitialHeader} (hdatagram : datagram.length ≤ isizeMax)
    (hbounds : InBounds datagram header) :
    decrypt crypto datagram header = refuse (Gate.decrypt crypto datagram header) := by
  have hmax : isizeMax + 4 ≤ addressMax := by decide
  have hoffset := hbounds.packetNumberOffset
  have hend := hbounds.packetEnd
  have hlength := hbounds.length
  rw [decrypt, Gate.decrypt, checkedAdd_of_le (by omega), refuse_some, Fallible.ok_bind]
  refine ite_refuse fun hroom => ?_
  have hid : ((datagram.take header.dcidEnd).drop header.dcidStart).length ≤ maxConnectionId := by
    rw [List.length_drop, List.length_take_of_le (by omega)]
    exact hbounds.dcid
  rw [slice_of_le hbounds.dcidEnd (by omega), Fallible.ok_bind, connectionId, if_pos hid,
    Fallible.ok_bind]
  refine refuse_bind fun keys hkeys => ?_
  refine checkedAdd_bind (fun hfits => ?_) fun hlarge => if_pos (by omega)
  refine ite_refuse fun hsample => ?_
  rw [slice_of_le (Nat.zero_le _) (by omega), Fallible.ok_bind, List.drop_zero]
  refine openPacket_eq hdatagram hbounds ?_
  rw [hcrypto.header _ _ _ hkeys, List.length_take_of_le (by omega)]
  omega

end Indexed

end Gate

end Volto
