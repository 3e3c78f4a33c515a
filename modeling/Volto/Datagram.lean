import Volto.Tunnel.Udp
import Volto.Varint

/-!
# HTTP Datagrams

The codec of `datagram.rs`: a QUIC DATAGRAM frame carries a Quarter Stream ID, a Context ID and a
payload. What is written is told apart from what is read: a varint has up to four forms, and the
reader takes any of them where the writer chooses the shortest.

A datagram that does not decode is told by the field that ran out. `route_datagram` of
`h3/connection.rs` closes the connection over the first field and drops the datagram over the
second.

## Main results

* `decode_encode`: what was written is read back, and is as long as was promised.
* `decode_eq_ok_iff` and its siblings: what each answer of the decoder says of its input.
* `datagram_codec_exact`: all of it together.
-/

namespace Volto

open Udp (encodedLen)

/-! ### The codec -/

/-- The largest legal Quarter Stream ID. -/
def maxQuarterStreamId : ℕ := 2 ^ 60 - 1

/-- Why a datagram could not be decoded. -/
inductive DecodeError
  | missingQuarterStreamId
  | quarterStreamIdTooLarge (value : ℕ)
  | missingContextId
deriving DecidableEq, Repr

namespace DecodeError

/-- Whether the whole connection has to be closed. -/
def isConnectionError : DecodeError → Bool
  | missingQuarterStreamId | quarterStreamIdTooLarge _ => true
  | missingContextId => false

/-- The message of a decode error. -/
def display : DecodeError → String
  | missingQuarterStreamId => "datagram ended before its quarter stream id"
  | quarterStreamIdTooLarge value =>
      s!"quarter stream id {value} exceeds the legal maximum {maxQuarterStreamId}"
  | missingContextId => "datagram ended before its context id"

end DecodeError

namespace Datagram

/-- Encodes an HTTP datagram, or `none` where the assertion of `put_varint` fails. -/
def encode (quarterStreamId contextId : ℕ) (payload : List UInt8) : Option (List UInt8) := do
  let front ← putVarint quarterStreamId
  let back ← putVarint contextId
  some (front ++ back ++ payload)

/-- Encodes a datagram that carries a raw UDP payload. -/
def encodeUdpPayload (quarterStreamId : ℕ) (payload : List UInt8) : Option (List UInt8) :=
  encode quarterStreamId contextIdUdpPayload payload

/-- Decodes an HTTP datagram. -/
def decode (datagram : List UInt8) : Except DecodeError Datagram :=
  match takeVarint datagram with
  | none => .error .missingQuarterStreamId
  | some (quarterStreamId, datagram) =>
      if maxQuarterStreamId < quarterStreamId then
        .error (.quarterStreamIdTooLarge quarterStreamId)
      else
        match takeVarint datagram with
        | none => .error .missingContextId
        | some (contextId, payload) => .ok ⟨quarterStreamId, contextId, payload⟩

/-- What becomes of one QUIC datagram. -/
inductive Routed
  | deliver (decoded : Datagram)
  | fail (violation : Violation)
  | countDrop (kind : DropKind)
deriving DecidableEq, Repr

/-- Decodes one QUIC datagram and delivers it, or ends the connection. -/
def routeDatagram (datagram : List UInt8) : Routed :=
  match decode datagram with
  | .ok decoded => .deliver decoded
  | .error error =>
      if error.isConnectionError then
        .fail (Violation.connection Code.h3DatagramError
          s!"an unusable HTTP datagram: {error.display}")
      else
        .countDrop .malformed

variable {datagram bytes : List UInt8} {quarterStreamId contextId : ℕ} {payload : List UInt8}

/-! ### What is written -/

/-- A datagram is two varints and its payload. -/
theorem encode_eq_some_iff :
    encode quarterStreamId contextId payload = some bytes ↔
      ∃ front back, putVarint quarterStreamId = some front ∧ putVarint contextId = some back ∧
        bytes = front ++ (back ++ payload) := by
  simp only [encode, bind, Option.bind_eq_some_iff, Option.some.injEq]
  constructor
  · rintro ⟨front, hfront, back, hback, rfl⟩
    exact ⟨front, back, hfront, hback, List.append_assoc _ _ _⟩
  · rintro ⟨front, back, hfront, hback, rfl⟩
    exact ⟨front, hfront, back, hback, List.append_assoc _ _ _⟩

/-- What is written is as long as was promised. -/
theorem length_encode (h : encode quarterStreamId contextId payload = some bytes) :
    bytes.length = encodedLen quarterStreamId contextId payload.length := by
  obtain ⟨front, back, hfront, hback, rfl⟩ := encode_eq_some_iff.mp h
  rw [List.length_append, List.length_append, length_putVarint hfront, length_putVarint hback,
    encodedLen, Nat.add_assoc]

/-- Every legal pair of IDs can be written. -/
theorem exists_encode (hquarter : quarterStreamId ≤ maxQuarterStreamId)
    (hcontext : contextId ≤ varintMax) (payload : List UInt8) :
    ∃ bytes, encode quarterStreamId contextId payload = some bytes := by
  have hmax : maxQuarterStreamId ≤ varintMax := by decide
  obtain ⟨front, hfront⟩ :=
    Option.isSome_iff_exists.mp ((putVarint_isSome_iff _).mpr (hquarter.trans hmax))
  obtain ⟨back, hback⟩ := Option.isSome_iff_exists.mp ((putVarint_isSome_iff _).mpr hcontext)
  exact ⟨_, encode_eq_some_iff.mpr ⟨front, back, hfront, hback, rfl⟩⟩

/-! ### What is read -/

/-- **Everything a datagram can decode to**, with what its bytes are then. -/
inductive Decoding (datagram : List UInt8) : Except DecodeError Datagram → Prop
  | missingQuarterStreamId (h : ¬∃ value, Leads value datagram) :
      Decoding datagram (.error .missingQuarterStreamId)
  | tooLarge {quarterStreamId : ℕ} (h : Leads quarterStreamId datagram)
      (hlarge : maxQuarterStreamId < quarterStreamId) :
      Decoding datagram (.error (.quarterStreamIdTooLarge quarterStreamId))
  | missingContextId {quarterStreamId : ℕ} {front rest : List UInt8}
      (hdatagram : datagram = front ++ rest) (hfront : IsVarint quarterStreamId front)
      (hle : quarterStreamId ≤ maxQuarterStreamId) (h : ¬∃ value, Leads value rest) :
      Decoding datagram (.error .missingContextId)
  | whole {quarterStreamId contextId : ℕ} {front back payload : List UInt8}
      (hdatagram : datagram = front ++ (back ++ payload))
      (hfront : IsVarint quarterStreamId front) (hle : quarterStreamId ≤ maxQuarterStreamId)
      (hback : IsVarint contextId back) :
      Decoding datagram (.ok ⟨quarterStreamId, contextId, payload⟩)

/-- Every datagram decodes in one of the ways described. -/
theorem decoding (datagram : List UInt8) : Decoding datagram (decode datagram) := by
  rw [decode]
  cases hquarter : takeVarint datagram with
  | none => exact .missingQuarterStreamId (takeVarint_eq_none_iff.mp hquarter)
  | some r =>
      obtain ⟨quarterStreamId, rest⟩ := r
      obtain ⟨front, rfl, hfront⟩ := takeVarint_eq_some_iff.mp hquarter
      simp only
      split_ifs with hlarge
      · exact .tooLarge ⟨front, rest, rfl, hfront⟩ hlarge
      · have hle := Nat.le_of_not_lt hlarge
        cases hcontext : takeVarint rest with
        | none => exact .missingContextId rfl hfront hle (takeVarint_eq_none_iff.mp hcontext)
        | some r =>
            obtain ⟨contextId, payload⟩ := r
            obtain ⟨back, rfl, hback⟩ := takeVarint_eq_some_iff.mp hcontext
            exact .whole rfl hfront hle hback

/-- **What decodes**: a legal Quarter Stream ID and a Context ID, each in any of its forms, and
whatever follows them. -/
theorem decode_eq_ok_iff :
    decode datagram = .ok ⟨quarterStreamId, contextId, payload⟩ ↔
      ∃ front back, datagram = front ++ (back ++ payload) ∧ IsVarint quarterStreamId front ∧
        quarterStreamId ≤ maxQuarterStreamId ∧ IsVarint contextId back := by
  constructor
  · intro h
    have hdecoding := decoding datagram
    rw [h] at hdecoding
    cases hdecoding with
    | whole hdatagram hfront hle hback => exact ⟨_, _, hdatagram, hfront, hle, hback⟩
  · rintro ⟨front, back, rfl, hfront, hle, hback⟩
    rw [decode, takeVarint_eq_some_iff.mpr ⟨front, rfl, hfront⟩]
    simp only
    rw [if_neg (Nat.not_lt.mpr hle), takeVarint_eq_some_iff.mpr ⟨back, rfl, hback⟩]

/-- No whole varint leads the datagram. -/
theorem decode_eq_missingQuarterStreamId_iff :
    decode datagram = .error .missingQuarterStreamId ↔ ¬∃ value, Leads value datagram := by
  constructor
  · intro h
    have hdecoding := decoding datagram
    rw [h] at hdecoding
    cases hdecoding with
    | missingQuarterStreamId hnone => exact hnone
  · intro hnone
    rw [decode, takeVarint_eq_none_iff.mpr hnone]

/-- One does, and it is too large. -/
theorem decode_eq_quarterStreamIdTooLarge_iff {value : ℕ} :
    decode datagram = .error (.quarterStreamIdTooLarge value) ↔
      Leads value datagram ∧ maxQuarterStreamId < value := by
  constructor
  · intro h
    have hdecoding := decoding datagram
    rw [h] at hdecoding
    cases hdecoding with
    | tooLarge hleads hlarge => exact ⟨hleads, hlarge⟩
  · rintro ⟨⟨front, rest, rfl, hfront⟩, hlarge⟩
    rw [decode, takeVarint_eq_some_iff.mpr ⟨front, rfl, hfront⟩]
    exact if_pos hlarge

/-- A legal one leads it, and no whole varint follows. -/
theorem decode_eq_missingContextId_iff :
    decode datagram = .error .missingContextId ↔
      ∃ quarterStreamId front rest, datagram = front ++ rest ∧ IsVarint quarterStreamId front ∧
        quarterStreamId ≤ maxQuarterStreamId ∧ ¬∃ value, Leads value rest := by
  constructor
  · intro h
    have hdecoding := decoding datagram
    rw [h] at hdecoding
    cases hdecoding with
    | missingContextId hdatagram hfront hle hnone =>
        exact ⟨_, _, _, hdatagram, hfront, hle, hnone⟩
  · rintro ⟨quarterStreamId, front, rest, rfl, hfront, hle, hnone⟩
    rw [decode, takeVarint_eq_some_iff.mpr ⟨front, rfl, hfront⟩]
    simp only
    rw [if_neg (Nat.not_lt.mpr hle), takeVarint_eq_none_iff.mpr hnone]

/-- **What was written is read back.** -/
theorem decode_encode (hquarter : quarterStreamId ≤ maxQuarterStreamId)
    (h : encode quarterStreamId contextId payload = some bytes) :
    decode bytes = .ok ⟨quarterStreamId, contextId, payload⟩ := by
  obtain ⟨front, back, hfront, hback, rfl⟩ := encode_eq_some_iff.mp h
  exact decode_eq_ok_iff.mpr
    ⟨front, back, rfl, isVarint_putVarint hfront, hquarter, isVarint_putVarint hback⟩

/-! ### What hangs on it -/

/-- A datagram ends the connection over its Quarter Stream ID only. -/
theorem routeDatagram_fails_iff :
    (∃ violation, routeDatagram datagram = .fail violation) ↔
      (¬∃ value, Leads value datagram) ∨
        ∃ value, Leads value datagram ∧ maxQuarterStreamId < value := by
  rw [← decode_eq_missingQuarterStreamId_iff]
  simp only [← decode_eq_quarterStreamIdTooLarge_iff]
  rw [routeDatagram]
  cases hdecode : decode datagram with
  | ok decoded => simp
  | error error => cases error <;> simp [DecodeError.isConnectionError]

/-- **The codec is exact.** Every datagram with legal IDs is written in as many bytes as was
promised and read back; a varint is written in the shortest of its forms and read back whatever
follows; and a datagram that does not decode is told by the field that ran out or is too large, of
which the first is the connection's business and the second is not. -/
theorem datagram_codec_exact :
    (∀ quarterStreamId contextId payload, quarterStreamId ≤ maxQuarterStreamId →
      contextId < 2 ^ 62 → ∃ bytes, encode quarterStreamId contextId payload = some bytes ∧
        decode bytes = .ok ⟨quarterStreamId, contextId, payload⟩ ∧
        bytes.length = encodedLen quarterStreamId contextId payload.length) ∧
    (∀ value < 2 ^ 62, ∃ bytes, putVarint value = some bytes ∧ IsVarint value bytes ∧
      (∀ form, IsVarint value form → bytes.length ≤ form.length) ∧
      ∀ rest, peekVarint (bytes ++ rest) = some (value, bytes.length)) ∧
    (∀ datagram, (decode datagram = .error .missingQuarterStreamId ↔
        ¬∃ value, Leads value datagram) ∧
      (∀ value, decode datagram = .error (.quarterStreamIdTooLarge value) ↔
        Leads value datagram ∧ maxQuarterStreamId < value) ∧
      (decode datagram = .error .missingContextId ↔
        ∃ quarterStreamId front rest, datagram = front ++ rest ∧ IsVarint quarterStreamId front ∧
          quarterStreamId ≤ maxQuarterStreamId ∧ ¬∃ value, Leads value rest)) ∧
    ∀ error : DecodeError, error.isConnectionError = true ↔
      error = .missingQuarterStreamId ∨ ∃ value, error = .quarterStreamIdTooLarge value := by
  refine ⟨fun quarterStreamId contextId payload hquarter hcontext => ?_, fun value hvalue => ?_,
    fun datagram => ?_, fun error => ?_⟩
  · obtain ⟨bytes, hbytes⟩ := exists_encode hquarter (Nat.le_pred_of_lt hcontext) payload
    exact ⟨bytes, hbytes, decode_encode hquarter hbytes, length_encode hbytes⟩
  · obtain ⟨bytes, hbytes⟩ := Option.isSome_iff_exists.mp
      ((putVarint_isSome_iff value).mpr (Nat.le_pred_of_lt hvalue))
    exact ⟨bytes, hbytes, isVarint_putVarint hbytes, fun form => length_putVarint_le hbytes,
      peekVarint_putVarint hbytes⟩
  · exact ⟨decode_eq_missingQuarterStreamId_iff, fun value => decode_eq_quarterStreamIdTooLarge_iff,
      decode_eq_missingContextId_iff⟩
  · cases error <;> simp [DecodeError.isConnectionError]

end Datagram

end Volto
