import Volto.Gate.CryptoStream
import Volto.Gate.FirstFlight

/-!
# The Gate's Verdict

`Judge::judge` of `gate.rs`: what happens to one received datagram, judged by its first QUIC
packet. The header is read without trust in any of its lengths, the packet is opened with the
keys its own connection ID derives, and the name its ClientHello asks for decides.

The keys are a parameter: the source takes them from the TLS library. `Opened` says that a
datagram is an Initial packet the gate has opened, and with which payload.

A payload that carries a whole ClientHello for a name that is not expected is refused, except
where the walk of its frames discards what it found: when a frame after the ClientHello is cut
short, the datagram passes, although nothing about the name has changed.

## Main results

* `judge_of_opened`: an opened packet is judged by its payload alone.
* `judge_refuses_iff`: when exactly a forbidden ClientHello is refused.
* `cut_short_ack_passes`: a byte after the ClientHello lets it through.
-/

namespace Volto

namespace Gate

/-- QUIC version 1. -/
def quicV1 : ℕ := 0x00000001

/-- The longest connection ID QUIC version 1 allows, in bytes. -/
def maxConnectionId : ℕ := 20

/-- The smallest UDP payload that may carry an Initial packet, in bytes. -/
def minInitialDatagram : ℕ := 1200

/-- The shortest Destination Connection ID a client's first Initial may carry. -/
def minClientConnectionId : ℕ := 8

/-- Offset of the Destination Connection ID Length field in a long header. -/
def dcidLengthOffset : ℕ := 5

/-! ### The header -/

/-- Where the interesting parts of a long header are. -/
structure InitialHeader where
  dcidStart : ℕ
  dcidEnd : ℕ
  packetNumberOffset : ℕ
  packetEnd : ℕ
deriving DecidableEq, Repr

namespace InitialHeader

/-- The Token Length and Length fields, which are varints, from `start` on. -/
def parseLengths (datagram : List UInt8) (dcidEnd start : ℕ) : Option InitialHeader := do
  let (tokenLength, read) ← peekVarint (datagram.drop start)
  let start := start + read + tokenLength
  if datagram.length < start then
    none
  else do
    let (length, read) ← peekVarint (datagram.drop start)
    if datagram.length < start + read + length then
      none
    else
      some ⟨dcidLengthOffset + 1, dcidEnd, start + read, start + read + length⟩

/-- Reads an Initial header, or `none` if it does not fit what arrived. -/
def parse (datagram : List UInt8) : Option InitialHeader := do
  let dcidLength ← datagram[dcidLengthOffset]?
  if maxConnectionId < dcidLength.toNat then
    none
  else
    let dcidEnd := dcidLengthOffset + 1 + dcidLength.toNat
    if datagram.length < dcidEnd then
      none
    else do
      let scidLength ← datagram[dcidEnd]?
      if maxConnectionId < scidLength.toNat then
        none
      else if datagram.length < dcidEnd + 1 + scidLength.toNat then
        none
      else
        parseLengths datagram dcidEnd (dcidEnd + 1 + scidLength.toNat)

end InitialHeader

/-! ### Opening a packet -/

/-- The remote half of the Initial keys: header protection and packet protection. -/
structure Keys where
  sampleSize : ℕ
  /-- Removes header protection, given the packet number's offset. -/
  headerDecrypt : ℕ → List UInt8 → List UInt8
  tagLen : ℕ
  /-- Opens a payload, given the packet number and the header. -/
  packetDecrypt : ℕ → List UInt8 → List UInt8 → Option (List UInt8)

/-- The source of Initial keys: a version and a connection ID derive them. -/
structure Crypto where
  initialKeys : ℕ → List UInt8 → Option Keys

/-- Removes header protection and packet protection, returning the frames. -/
def decrypt (crypto : Crypto) (datagram : List UInt8) (header : InitialHeader) :
    Option (List UInt8) :=
  let numberEndLimit := header.packetNumberOffset + 4
  if header.packetEnd < numberEndLimit then
    none
  else do
    let keys ← crypto.initialKeys quicV1
      ((datagram.take header.dcidEnd).drop header.dcidStart)
    let sampleEnd := numberEndLimit + keys.sampleSize
    if header.packetEnd < sampleEnd then
      none
    else
      let head := keys.headerDecrypt header.packetNumberOffset (datagram.take sampleEnd)
      let numberLength := ((head[0]?.getD 0).toNat &&& 0x03) + 1
      let numberEnd := header.packetNumberOffset + numberLength
      if header.packetEnd < numberEnd then
        none
      else
        let number := BigEndian.ofBytes 0 ((head.take numberEnd).drop header.packetNumberOffset)
        if header.packetEnd - numberEnd < keys.tagLen then
          none
        else
          keys.packetDecrypt number (head.take numberEnd)
            ((datagram.take header.packetEnd).drop numberEnd)

/-! ### The verdict -/

/-- Why a datagram was refused. -/
inductive Refusal
  | version (version : ℕ)
  | shortConnectionId (length : ℕ)
  | notClientHello
  | anonymous
  | otherName (name : List UInt8)
deriving DecidableEq, Repr

/-- What the gate decided about one datagram. -/
inductive Verdict
  | pass
  | refuse (refusal : Refusal)
deriving DecidableEq, Repr

/-- The verdict on a name, which only text can be expected. -/
def judgeName (expected : Names) (name : List UInt8) : Verdict :=
  match fromUtf8 name with
  | some text => if expected.accepts text then .pass else .refuse (.otherName name)
  | none => .refuse (.otherName name)

/-- The verdict on a first flight. -/
def judgeFlight (expected : Names) : FirstFlight → Verdict
  | .truncated => .pass
  | .notAClientHello => .refuse .notClientHello
  | .anonymous => .refuse .anonymous
  | .named name => judgeName expected name

/-- The verdict on the frames of an opened packet. -/
def judgeFrames (expected : Names) (frames : List UInt8) : Verdict :=
  match cryptoStreamPrefix frames with
  | none => .pass
  | some crypto => judgeFlight expected (firstFlight crypto)

/-- The verdict on an Initial packet. -/
def judgeInitial (crypto : Crypto) (expected : Names) (datagram : List UInt8) : Verdict :=
  match InitialHeader.parse datagram with
  | none => .pass
  | some header =>
      if header.dcidEnd - header.dcidStart < minClientConnectionId then
        .refuse (.shortConnectionId (header.dcidEnd - header.dcidStart))
      else
        match decrypt crypto datagram header with
        | none => .pass
        | some frames => judgeFrames expected frames

/-- What should happen to one datagram. -/
def judge (crypto : Crypto) (datagram : List UInt8) (expected : Names) : Verdict :=
  match datagram with
  | [] => .pass
  | first :: _ =>
      if first.toNat &&& 0x80 = 0 then .pass
      else if datagram.length < 5 then .pass
      else
        let version := BigEndian.ofBytes 0 ((datagram.take 5).drop 1)
        if version ≠ quicV1 then .refuse (.version version)
        else if first.toNat &&& 0x30 ≠ 0x00 then .pass
        else if datagram.length < minInitialDatagram then .pass
        else judgeInitial crypto expected datagram

/-- The datagram is an Initial packet the gate has opened, with this payload. -/
structure Opened (crypto : Crypto) (datagram payload : List UInt8) : Prop where
  initial : ∃ first ∈ datagram.head?, first.toNat &&& 0x80 ≠ 0 ∧ first.toNat &&& 0x30 = 0x00
  version : BigEndian.ofBytes 0 ((datagram.take 5).drop 1) = quicV1
  size : minInitialDatagram ≤ datagram.length
  payload : ∃ header, InitialHeader.parse datagram = some header ∧
    minClientConnectionId ≤ header.dcidEnd - header.dcidStart ∧
    decrypt crypto datagram header = some payload

/-- **An opened packet is judged by its payload alone.** -/
theorem judge_of_opened {crypto : Crypto} {datagram payload : List UInt8}
    (h : Opened crypto datagram payload) (expected : Names) :
    judge crypto datagram expected = judgeFrames expected payload := by
  obtain ⟨⟨first, hfirst, hlong, hinitial⟩, hversion, hsize, header, hparse, hdcid, hdecrypt⟩ := h
  cases datagram with
  | nil => cases hfirst
  | cons first' tail =>
      cases hfirst
      have hfive : ¬(first :: tail).length < 5 := by
        rw [minInitialDatagram] at hsize
        omega
      simp only [judge, if_neg hlong, if_neg hfive, hversion, ne_eq, not_true_eq_false, if_false,
        hinitial, if_neg (Nat.not_lt.mpr hsize), judgeInitial, hparse,
        if_neg (Nat.not_lt.mpr hdcid), hdecrypt]

/-! ### Forbidden names -/

/-- A ClientHello body that names no expected host: another name, or none. -/
def Forbidden (expected : Names) (body : List UInt8) : Prop :=
  ∀ name ∈ serverName body, ∀ text ∈ fromUtf8 name, expected.accepts text = false

/-- A stream that begins with a whole ClientHello naming no expected host. -/
def HoldsForbidden (expected : Names) (stream : List UInt8) : Prop :=
  ∃ body, body.length < 2 ^ 24 ∧ helloMessage body <+: stream ∧ Forbidden expected body

/-- A verdict is a refusal. -/
def Verdict.Refuses (verdict : Verdict) : Prop :=
  ∃ refusal, verdict = .refuse refusal

/-- A name is refused exactly when it is not an expected one. -/
theorem judgeName_refuses {expected : Names} {name : List UInt8} :
    (judgeName expected name).Refuses ↔
      ∀ text ∈ fromUtf8 name, expected.accepts text = false := by
  rw [judgeName]
  cases fromUtf8 name with
  | none => exact iff_of_true ⟨_, rfl⟩ (by rintro _ ⟨⟩)
  | some text =>
      simp only
      split_ifs with haccepts
      · refine iff_of_false ?_ fun h => ?_
        · rintro ⟨refusal, ⟨⟩⟩
        · rw [h text rfl] at haccepts
          cases haccepts
      · refine iff_of_true ⟨_, rfl⟩ ?_
        rintro _ ⟨⟩
        exact Bool.eq_false_of_not_eq_true haccepts

/-- A whole ClientHello is refused exactly when it is a forbidden one. -/
theorem judgeFlight_of_hello {expected : Names} {body stream : List UInt8}
    (hlength : body.length < 2 ^ 24) (hstream : helloMessage body <+: stream) :
    (judgeFlight expected (firstFlight stream)).Refuses ↔ Forbidden expected body := by
  obtain ⟨rest, rfl⟩ := hstream
  rw [firstFlight_of_hello hlength]
  rw [Forbidden]
  cases serverName body with
  | none => exact iff_of_true ⟨_, rfl⟩ (by rintro _ ⟨⟩)
  | some name =>
      rw [show judgeFlight expected (.named name) = judgeName expected name from rfl,
        judgeName_refuses]
      constructor
      · rintro h _ ⟨⟩
        exact h
      · intro h
        exact h name rfl

/-- **A first flight is refused exactly when it holds a forbidden ClientHello**, when it begins
like a ClientHello. -/
theorem judgeFlight_refuses {expected : Names} {stream : List UInt8}
    (hhead : stream.head? = some clientHello) :
    (judgeFlight expected (firstFlight stream)).Refuses ↔ HoldsForbidden expected stream := by
  constructor
  · intro h
    have hwhole : firstFlight stream ≠ .truncated := by
      intro htruncated
      rw [htruncated] at h
      obtain ⟨refusal, ⟨⟩⟩ := h
    obtain ⟨body, hlength, hstream⟩ := exists_hello_of_firstFlight hhead hwhole
    exact ⟨body, hlength, hstream, (judgeFlight_of_hello hlength hstream).mp h⟩
  · rintro ⟨body, hlength, hstream, hforbidden⟩
    exact (judgeFlight_of_hello hlength hstream).mpr hforbidden

/-- The head of a stream that holds a ClientHello. -/
theorem head?_of_hello {body stream : List UInt8} (h : helloMessage body <+: stream) :
    stream.head? = some clientHello := by
  obtain ⟨rest, rfl⟩ := h
  rfl

/-- **The verdict on frames that are walked to an end**, where the stream begins like a
ClientHello. -/
theorem judgeFrames_refuses {expected : Names} {frames : List UInt8} {fragments : List Fragment}
    (hwalk : walk [] frames = some fragments)
    (hhead : (Reassembly.assemble fragments).head? = some clientHello) :
    (judgeFrames expected frames).Refuses ↔
      HoldsForbidden expected (Reassembly.assemble fragments) := by
  have hne : Reassembly.assemble fragments ≠ [] := by
    intro hnil
    rw [hnil] at hhead
    cases hhead
  have hstream : cryptoStreamPrefix frames = some (Reassembly.assemble fragments) := by
    rw [cryptoStreamPrefix_eq, hwalk, Option.bind_some, if_neg hne]
  rw [judgeFrames, hstream]
  exact judgeFlight_refuses hhead

/-- Frames that are cut short pass. -/
theorem judgeFrames_of_cutShort {frames : List UInt8} (h : walk [] frames = none)
    (expected : Names) : judgeFrames expected frames = .pass := by
  rw [judgeFrames, cryptoStreamPrefix_eq, h]
  rfl

/-- **When exactly a forbidden ClientHello is refused.** Of the payload of an opened packet,
`p` is whole frames whose CRYPTO data holds a whole ClientHello that names no expected host, and
`s` is whatever follows them. The datagram is refused exactly when no frame of `s` is cut short
and the CRYPTO frames of `s` have not overwritten the ClientHello by one that may pass. CRYPTO
frames that agree with it have not, so with those the first condition decides. -/
theorem judge_refuses_iff {crypto : Crypto} {datagram p s body : List UInt8} {expected : Names}
    {fragments : List Fragment} (hopened : Opened crypto datagram (p ++ s))
    (hwalks : Walks p fragments) (hlength : body.length < 2 ^ 24)
    (hhello : helloMessage body <+: Reassembly.assemble fragments)
    (hforbidden : Forbidden expected body) :
    ((judge crypto datagram expected).Refuses ↔
      ¬CutShort s ∧
        HoldsForbidden expected (Reassembly.assemble (fragments ++ fragmentsOf s))) ∧
    ((∀ fragment ∈ fragmentsOf s, Reassembly.Agrees (helloMessage body) fragment) →
      ((judge crypto datagram expected).Refuses ↔ ¬CutShort s)) := by
  have hiff : (judge crypto datagram expected).Refuses ↔
      ¬CutShort s ∧
        HoldsForbidden expected (Reassembly.assemble (fragments ++ fragmentsOf s)) := by
    rw [judge_of_opened hopened]
    cases hwalk : walk [] s with
    | none =>
        have hall : walk [] (p ++ s) = none := by
          rw [hwalks.walk_append, walk_eq_map, hwalk]
          rfl
        rw [judgeFrames_of_cutShort hall]
        refine iff_of_false ?_ fun h => h.1 ((walk_eq_none_iff []).mp hwalk)
        rintro ⟨refusal, ⟨⟩⟩
    | some found =>
        have hall : walk [] (p ++ s) = some (fragments ++ found) := by
          rw [hwalks.walk_append, walk_eq_map, hwalk]
          rfl
        have hfound : fragmentsOf s = found := by
          rw [fragmentsOf, hwalk]
          rfl
        have hcut : ¬CutShort s := by
          rw [← walk_eq_none_iff [], hwalk]
          rintro ⟨⟩
        rw [judgeFrames_refuses hall
          (Reassembly.head?_assemble_append (head?_of_hello hhello) found), hfound]
        exact ⟨fun h => ⟨hcut, h⟩, fun h => h.2⟩
  refine ⟨hiff, fun hagrees => ?_⟩
  rw [hiff]
  refine ⟨fun h => h.1, fun h => ⟨h, body, hlength, ?_, hforbidden⟩⟩
  exact Reassembly.isPrefix_assemble_append hhello hagrees

/-! ### A probe

A ClientHello for `x.test`, sealed with the Initial keys that the connection ID
`8394c8f03e515708` derives, at a server that expects `proxy.example`. One byte follows the
CRYPTO frame in the payload. -/

/-- The ClientHello body of the probe. -/
def probeBody : List UInt8 :=
  [0x03, 0x03] ++ List.replicate 32 0x00 ++
    [0x00, 0x00, 0x02, 0x13, 0x01, 0x01, 0x00, 0x00, 0x0f, 0x00, 0x00, 0x00, 0x0b, 0x00, 0x09,
      0x00, 0x00, 0x06] ++ ascii "x.test"

/-- The CRYPTO frame of the probe. -/
def probeFrame : List UInt8 :=
  [0x06, 0x00, 0x3e] ++ helloMessage probeBody

/-- The names that the probes are judged by. -/
def probeExpected : Names :=
  Names.new [ascii "proxy.example"]

/-- The datagram of the probe, with the end of the sealed payload left open. -/
def probeDatagram (sealedEnd : List UInt8) : List UInt8 :=
  [0xc4, 0x00, 0x00, 0x00, 0x01, 0x08, 0x83, 0x94, 0xc8, 0xf0, 0x3e, 0x51, 0x57, 0x08, 0x00, 0x00,
    0x40, 0x53, 0x2b, 0x46, 0xb4, 0x2f, 0xdb, 0x9a, 0x7c, 0x99, 0x24, 0xc0, 0xa6, 0x4f, 0x95, 0xc6,
    0x88, 0x77, 0xc3, 0x22, 0x10, 0x10, 0xfe, 0xab, 0x50, 0x17, 0x1b, 0xb1, 0x76, 0xbf, 0x6e, 0x9a,
    0x26, 0x00, 0xb4, 0x0c, 0x75, 0xe4, 0x6e, 0x44, 0x0b, 0x77, 0x59, 0x7c, 0x17, 0x27, 0xf9, 0x02,
    0xf7, 0xe5, 0x75, 0xe9, 0x0d, 0x68, 0xd7, 0x31, 0xe8, 0xba, 0x7f, 0xa4, 0xdd, 0xd6, 0xf3, 0x1f,
    0x1d, 0x71, 0x40, 0xde] ++
    sealedEnd ++ List.replicate 1099 0x00

/-- Header protection is taken off with a mask: four bits of the first byte, and the packet
number. -/
def unmask (mask : List UInt8) (offset : ℕ) (head : List UInt8) : List UInt8 :=
  let first := (head[0]?.getD 0) ^^^ ((mask[0]?.getD 0) &&& 0x0f)
  (List.range ((first.toNat &&& 0x03) + 1)).foldl
    (fun head i => head.modify (offset + i) (· ^^^ (mask[i + 1]?.getD 0))) (head.set 0 first)

/-- The Initial keys on the probe: the mask its sample gives, and the payload that its sealed
bytes open to. -/
def probeCrypto (sealedEnd payload : List UInt8) : Crypto where
  initialKeys version dcid :=
    if version = quicV1 ∧ dcid = [0x83, 0x94, 0xc8, 0xf0, 0x3e, 0x51, 0x57, 0x08] then
      some {
        sampleSize := 16
        headerDecrypt := unmask [0x74, 0x2b, 0xd7, 0xee, 0xad]
        tagLen := 16
        packetDecrypt := fun number header bytes =>
          if number = 0 ∧ header = [0xc0] ++ ((probeDatagram sealedEnd).take 18).drop 1 ++ [0x00] ∧
              bytes = ((probeDatagram sealedEnd).take 101).drop 19 then
            some payload
          else
            none }
    else
      none

/-- The sealed end of the probe that ends in the type of an ACK. -/
def ackEnd : List UInt8 :=
  [0x52, 0xe3, 0x8b, 0xa0, 0x4d, 0xca, 0xa2, 0xd9, 0xfb, 0xcb, 0xbd, 0x16, 0x97, 0xf8, 0x7f, 0x9b,
    0x45]

/-- The sealed end of the probe that ends in padding. -/
def paddingEnd : List UInt8 :=
  [0x50, 0x2e, 0xac, 0xcc, 0x28, 0x55, 0x84, 0x20, 0x1c, 0x29, 0x85, 0xfd, 0x97, 0xda, 0x41, 0x2a,
    0xdb]

/-- Both probes are opened by the gate. -/
theorem ackProbe_opened :
    Opened (probeCrypto ackEnd (probeFrame ++ [0x02])) (probeDatagram ackEnd)
      (probeFrame ++ [0x02]) where
  initial := ⟨_, rfl, by decide, by decide⟩
  version := by decide
  size := by decide +kernel
  payload := ⟨⟨6, 14, 18, 101⟩, by decide +kernel, by decide, by decide +kernel⟩

/-- The probe with padding at its end opens to its frames. -/
theorem paddingProbe_opened :
    Opened (probeCrypto paddingEnd (probeFrame ++ [0x00])) (probeDatagram paddingEnd)
      (probeFrame ++ [0x00]) where
  initial := ⟨_, rfl, by decide, by decide⟩
  version := by decide
  size := by decide +kernel
  payload := ⟨⟨6, 14, 18, 101⟩, by decide +kernel, by decide, by decide +kernel⟩

/-- The CRYPTO frame of the probe is a whole one. -/
theorem probeFrame_walks : Walks probeFrame [(0, helloMessage probeBody)] := by
  have hframe : takeFrame probeFrame = .frame (some (0, helloMessage probeBody)) [] := by
    decide +kernel
  exact .cons hframe .nil

/-- The probe asks for `x.test`. -/
theorem serverName_probeBody : serverName probeBody = some (ascii "x.test") := by
  change findServerName (probeBody.drop 43) = _
  have hkind : takeNumber 2 (probeBody.drop 43) = some (0, probeBody.drop 45) := by decide
  have hdata : takeVector 2 (probeBody.drop 45) = some (probeBody.drop 47, []) := by decide
  have hlist : takeVector 2 (probeBody.drop 47) = some (0x00 :: probeBody.drop 50, []) := by
    decide
  have hname : takeVector 2 (probeBody.drop 50) = some (ascii "x.test", []) := by decide
  have hhost : hostName (probeBody.drop 47) = some (ascii "x.test") := by
    rw [hostName, hlist]
    exact (findHostName_cons hname).trans (if_pos rfl)
  rw [findServerName_of_extension hkind hdata, if_pos (by decide), hhost]

/-- The probe's name is not the expected one. -/
theorem probeBody_forbidden : Forbidden probeExpected probeBody := by
  intro name hname text htext
  rw [serverName_probeBody] at hname
  cases hname
  have hascii : (ascii "x.test").all (· < 0x80) = true := by decide
  rw [fromUtf8_of_ascii fun byte hmem =>
    of_decide_eq_true (List.all_eq_true.mp hascii byte hmem)] at htext
  cases htext
  decide

/-- The CRYPTO data of the probe holds its ClientHello. -/
theorem probeFrame_hello :
    helloMessage probeBody <+: Reassembly.assemble [(0, helloMessage probeBody)] := by
  simp [Reassembly.assemble, Reassembly.extend]

/-- The probe that ends in padding is refused. -/
theorem judge_refuses_iff_padding :
    (judge (probeCrypto paddingEnd (probeFrame ++ [0x00])) (probeDatagram paddingEnd)
      probeExpected).Refuses := by
  have hwalk : walk [] [0x00] = some [] := by
    have hframe : takeFrame [0x00] = .frame none [] := by decide
    rw [walk_of_frame hframe, walk]
    rfl
  have hfragments : fragmentsOf [0x00] = [] := by
    rw [fragmentsOf, hwalk]
    rfl
  refine ((judge_refuses_iff paddingProbe_opened probeFrame_walks (by decide)
    probeFrame_hello probeBody_forbidden).2 ?_).mpr ?_
  · rw [hfragments]
    intro fragment hmem
    cases hmem
  · rw [← walk_eq_none_iff [], hwalk]
    rintro ⟨⟩

/-- **A byte after the ClientHello lets it through**: the type of an ACK that is not there makes
the walk discard the ClientHello it has already found. -/
theorem cut_short_ack_passes :
    ¬∀ (crypto : Crypto) (datagram p s body : List UInt8) (expected : Names)
      (fragments : List Fragment), expected.names ≠ [] → Opened crypto datagram (p ++ s) →
      Walks p fragments → body.length < 2 ^ 24 →
      helloMessage body <+: Reassembly.assemble fragments → Forbidden expected body →
      (judge crypto datagram expected).Refuses := by
  intro h
  obtain ⟨refusal, hrefuse⟩ := h (probeCrypto ackEnd (probeFrame ++ [0x02])) (probeDatagram ackEnd)
    probeFrame [0x02] probeBody probeExpected _ (by decide) ackProbe_opened probeFrame_walks
    (by decide) probeFrame_hello probeBody_forbidden
  have hcut : CutShort [0x02] := .here (List.cons_ne_nil _ _) (by decide)
  have hwalk : walk [] (probeFrame ++ [0x02]) = none := by
    rw [probeFrame_walks.walk_append, walk_eq_none_iff]
    exact hcut
  rw [judge_of_opened ackProbe_opened, judgeFrames_of_cutShort hwalk] at hrefuse
  cases hrefuse

end Gate

end Volto
