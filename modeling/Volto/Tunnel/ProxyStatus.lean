import Volto.H3.Message
import Volto.Net.Address

/-!
# Proxy-Status

What a refusal says about its cause, `tunnel/status.rs`: each error has a value of the
`Proxy-Status` field and a status. Three of the errors are about one address, and it is named in
the value as a quoted string.

A reader of such values is given beside the code, from the grammar that they follow.

## Main results

* `readQuoted_escape`: a quoted text is read back, whatever it is.
* `readProxyStatus_fieldsWithNextHop`: the error of a refusal, and the address it may name, are
  read back from its field.
-/

namespace Volto

open Policy

/-! ### Errors of the system -/

/-- The kinds of an `io::Error` that are told apart. -/
inductive ErrorKind
  | connectionRefused
  | timedOut
  | invalidInput
  | other
deriving DecidableEq, Repr

/-- What is read of an `io::Error`. -/
structure IoError where
  kind : ErrorKind
  rawOsError : Option ℕ
deriving DecidableEq, Repr

/-- `EMFILE`, `ENFILE`, `ENOBUFS`, `ENOMEM` and `EADDRNOTAVAIL`. -/
def localExhaustion : List ℕ := [24, 23, 105, 12, 99]

/-- Whether it is this host that has run out of something. -/
def isLocalExhaustion (error : IoError) : Bool :=
  error.rawOsError.any localExhaustion.contains

/-- No address of a target could be reached. -/
structure Unreachable where
  /-- The address of the last attempt. -/
  nextHop : Option SocketAddr
  error : IoError
deriving DecidableEq, Repr

/-- The failure of a dial that was given no address. -/
def Unreachable.noAddresses : Unreachable :=
  ⟨none, ⟨.invalidInput, none⟩⟩

/-! ### Errors of the proxy -/

/-- Why a tunnel was refused. -/
inductive ProxyError
  | dnsError
  | dnsTimeout
  | destinationIpProhibited
  | destinationUnavailable
  | connectionRefused
  | connectionTimeout
  | proxyInternalError
  | connectionLimitReached
  | httpRequestDenied
deriving DecidableEq, Repr

/-- A lookup that gave no addresses. -/
inductive ResolveFailure
  | failed (error : IoError)
  | timedOut
deriving DecidableEq, Repr

/-- What a failed lookup is reported as. -/
def ResolveFailure.proxyError : ResolveFailure → ProxyError
  | .failed _ => .dnsError
  | .timedOut => .dnsTimeout

/-- The name of the response field. -/
def proxyStatus : List UInt8 := ascii "proxy-status"

/-- Quotes and backslashes are escaped. -/
def escape (value : List UInt8) : List UInt8 :=
  value.flatMap fun byte => if byte = 0x22 ∨ byte = 0x5c then [0x5c, byte] else [byte]

/-- A structured-field string. -/
def sfString (value : List UInt8) : List UInt8 :=
  0x22 :: (escape value ++ [0x22])

namespace ProxyError

/-- The value of the field, without a parameter. -/
def fieldValue : ProxyError → FieldValue
  | dnsError => ⟨ascii "volto; error=dns_error", by decide⟩
  | dnsTimeout => ⟨ascii "volto; error=dns_timeout", by decide⟩
  | destinationIpProhibited => ⟨ascii "volto; error=destination_ip_prohibited", by decide⟩
  | destinationUnavailable => ⟨ascii "volto; error=destination_unavailable", by decide⟩
  | connectionRefused => ⟨ascii "volto; error=connection_refused", by decide⟩
  | connectionTimeout => ⟨ascii "volto; error=connection_timeout", by decide⟩
  | proxyInternalError => ⟨ascii "volto; error=proxy_internal_error", by decide⟩
  | connectionLimitReached => ⟨ascii "volto; error=connection_limit_reached", by decide⟩
  | httpRequestDenied => ⟨ascii "volto; error=http_request_denied", by decide⟩

/-- The response fields that say why a request was refused. -/
def fields (error : ProxyError) : Fields :=
  Fields.append [] proxyStatus error.fieldValue

/-- Whether the error is about the address that was dialled. -/
def disclosesNextHop : ProxyError → Bool
  | connectionRefused | connectionTimeout | destinationUnavailable => true
  | _ => false

/-- The same, naming the next hop where the error discloses it. -/
def fieldsWithNextHop (error : ProxyError) (nextHop : Option SocketAddr) : Fields :=
  match nextHop.filter fun _ => error.disclosesNextHop with
  | none => error.fields
  | some address =>
      let value := error.fieldValue.bytes ++ ascii "; next-hop=" ++ sfString address.display
      Fields.append [] proxyStatus ((FieldValue.parse value).getD error.fieldValue)

/-- The error of a failed attempt to connect. -/
def fromConnectError (error : IoError) : ProxyError :=
  if isLocalExhaustion error then proxyInternalError
  else
    match error.kind with
    | .connectionRefused => connectionRefused
    | .timedOut => connectionTimeout
    | _ => destinationUnavailable

/-- The status that goes with an error. -/
def recommendedStatus : ProxyError → Status
  | dnsError | connectionRefused => .badGateway
  | dnsTimeout | connectionTimeout => .gatewayTimeout
  | destinationUnavailable | connectionLimitReached => .serviceUnavailable
  | destinationIpProhibited | httpRequestDenied => .forbidden
  | proxyInternalError => .internalServerError

end ProxyError

/-! ### Answers -/

/-- A response: what `respond_within` is given. -/
structure Answer where
  status : Status
  fields : Fields
deriving DecidableEq

namespace Answer

/-- `refuse`. -/
def plain (status : Status) : Answer :=
  ⟨status, []⟩

/-- `refuse_because`. -/
def because (error : ProxyError) : Answer :=
  ⟨error.recommendedStatus, error.fields⟩

/-- `refuse_unreachable`. -/
def unreachable (failure : Unreachable) : Answer :=
  ⟨(ProxyError.fromConnectError failure.error).recommendedStatus,
    (ProxyError.fromConnectError failure.error).fieldsWithNextHop failure.nextHop⟩

end Answer

/-! ### Reading a value -/

/-- The text of a quoted string behind its opening quote, and what stands behind it. A byte behind a
backslash is taken as it is. -/
def readQuoted (escaped : Bool) : List UInt8 → Option (List UInt8 × List UInt8)
  | [] => none
  | byte :: rest =>
      if escaped then (readQuoted false rest).map (Prod.map (byte :: ·) id)
      else if byte = 0x22 then some ([], rest)
      else if byte = 0x5c then readQuoted true rest
      else (readQuoted false rest).map (Prod.map (byte :: ·) id)

/-- The error token of a value, and the text of its next hop if it has one. -/
def readProxyStatus (value : List UInt8) : Option (List UInt8 × Option (List UInt8)) :=
  (value.dropPrefix? (ascii "volto; error=")).bind fun rest =>
    match Splitting.splitOnce 0x3b rest with
    | none => some (rest, none)
    | some (token, parameter) =>
        (parameter.dropPrefix? (ascii " next-hop=\"")).bind fun quoted =>
          (readQuoted false quoted).bind fun read =>
            if read.2 = [] then some (token, some read.1) else none

/-- The token of an error. -/
def ProxyError.token : ProxyError → List UInt8
  | dnsError => ascii "dns_error"
  | dnsTimeout => ascii "dns_timeout"
  | destinationIpProhibited => ascii "destination_ip_prohibited"
  | destinationUnavailable => ascii "destination_unavailable"
  | connectionRefused => ascii "connection_refused"
  | connectionTimeout => ascii "connection_timeout"
  | proxyInternalError => ascii "proxy_internal_error"
  | connectionLimitReached => ascii "connection_limit_reached"
  | httpRequestDenied => ascii "http_request_denied"

/-- **A quoted text is read back**, whatever it is. -/
theorem readQuoted_escape (text rest : List UInt8) :
    readQuoted false (escape text ++ 0x22 :: rest) = some (text, rest) := by
  induction text with
  | nil => rfl
  | cons byte text ih =>
      rw [escape, List.flatMap_cons, ← escape]
      split_ifs with hescaped
      · simp only [List.cons_append, List.nil_append, readQuoted, if_true, Bool.false_eq_true,
          if_false, (by decide : ¬(0x5c : UInt8) = 0x22), ih, Option.map_some, Prod.map, id]
      · rw [not_or] at hescaped
        simp only [List.cons_append, List.nil_append, readQuoted, Bool.false_eq_true, if_false,
          hescaped.1, hescaped.2, ih, Option.map_some, Prod.map, id]

/-! ### The value of a refusal -/

/-- The bytes of an address. -/
theorem of_mem_display {ip : IpAddr} {byte : UInt8} (h : byte ∈ ip.display) :
    isHexDigit byte = true ∨ byte = 0x2e ∨ byte = 0x3a := by
  by_contra hnot
  simp only [not_or, Bool.not_eq_true] at hnot
  exact notMem_display hnot.1 hnot.2.1 hnot.2.2 ip h

/-- Bytes that a field value may have. -/
def Visible (text : List UInt8) : Prop :=
  ∀ byte ∈ text, isFieldValue [byte] = true

/-- A field value is one of visible bytes. -/
theorem isFieldValue_iff {text : List UInt8} : isFieldValue text = true ↔ Visible text := by
  simp [Visible, isFieldValue]

/-- Visible texts join to a visible text. -/
theorem Visible.append {text text' : List UInt8} (h : Visible text) (h' : Visible text') :
    Visible (text ++ text') :=
  fun byte hmem => (List.mem_append.mp hmem).elim (h byte) (h' byte)

/-- Escaping keeps a text visible. -/
theorem Visible.escape {text : List UInt8} (h : Visible text) : Visible (escape text) := by
  intro byte hmem
  obtain ⟨original, horiginal, hbyte⟩ := List.mem_flatMap.mp hmem
  split_ifs at hbyte
  · rcases List.mem_cons.mp hbyte with rfl | hbyte
    · decide
    · exact List.mem_singleton.mp hbyte ▸ h original horiginal
  · exact List.mem_singleton.mp hbyte ▸ h original horiginal

/-- A hexadecimal digit is visible. -/
theorem visible_of_isHexDigit {byte : UInt8} (h : isHexDigit byte = true) :
    isFieldValue [byte] = true := by
  have hall : ∀ byte : UInt8, isHexDigit byte = true → isFieldValue [byte] = true :=
    forall_byte (by decide +kernel)
  exact hall byte h

/-- An address is written in visible bytes. -/
theorem visible_ip (ip : IpAddr) : Visible ip.display := by
  intro byte hmem
  rcases of_mem_display hmem with hhex | rfl | rfl
  · exact visible_of_isHexDigit hhex
  · decide
  · decide

/-- A number is written in visible bytes. -/
theorem visible_showDecimal (n : ℕ) : Visible (showDecimal n) := by
  intro byte hmem
  refine visible_of_isHexDigit ?_
  rw [isHexDigit, isAsciiDigit_of_mem_showDecimal hmem]
  rfl

/-- An address with its port is written in visible bytes. -/
theorem visible_display (address : SocketAddr) : Visible address.display := by
  have hcolon : ∀ n, Visible (0x3a :: showDecimal n) := fun n =>
    Visible.append (show Visible [0x3a] by simp [Visible, isFieldValue]) (visible_showDecimal n)
  cases address with
  | v4 ip port => exact (visible_ip (.v4 ip)).append (hcolon _)
  | v6 ip port flowinfo scopeId =>
      have hscope : Visible (SocketAddr.showScope scopeId) := by
        rw [SocketAddr.showScope]
        split_ifs
        · exact fun byte hmem => absurd hmem List.not_mem_nil
        · exact Visible.append (show Visible [0x25] by simp [Visible, isFieldValue])
            (visible_showDecimal _)
      have hclosing : Visible (0x5d :: 0x3a :: showDecimal port.toNat) :=
        Visible.append (show Visible [0x5d] by simp [Visible, isFieldValue]) (hcolon _)
      exact Visible.append (show Visible [0x5b] by simp [Visible, isFieldValue])
        (((visible_ip (.v6 ip)).append hscope).append hclosing)

namespace ProxyError

/-- The field value is the name of this proxy and the token of the error. -/
theorem bytes_fieldValue (error : ProxyError) :
    error.fieldValue.bytes = ascii "volto; error=" ++ error.token := by
  cases error <;> decide

/-- No token holds the separator. -/
theorem semicolon_notMem_token (error : ProxyError) : 0x3b ∉ error.token := by
  cases error <;> decide

/-- **The token names the error.** -/
theorem token_injective {error error' : ProxyError} (h : error.token = error'.token) :
    error = error' := by
  revert h
  cases error <;> cases error' <;> decide

/-- A prefix put in front is dropped again. -/
theorem dropPrefix_append (front back : List UInt8) :
    (front ++ back).dropPrefix? front = some back :=
  List.dropPrefix?_append_of_beq back (beq_self_eq_true front)

/-- The token is read back from the field value. -/
theorem readProxyStatus_fieldValue (error : ProxyError) :
    readProxyStatus error.fieldValue.bytes = some (error.token, none) := by
  have hnone : Splitting.splitOnce 0x3b error.token = none := by
    cases error <;> decide
  rw [readProxyStatus, bytes_fieldValue, dropPrefix_append, Option.bind_some, hnone]

/-- Token and next hop are read back from the field value. -/
theorem readProxyStatus_nextHop (error : ProxyError) (text : List UInt8) :
    readProxyStatus (error.fieldValue.bytes ++ ascii "; next-hop=" ++ sfString text) =
      some (error.token, some text) := by
  have hvalue : error.fieldValue.bytes ++ ascii "; next-hop=" ++ sfString text =
      ascii "volto; error=" ++ (error.token ++ 0x3b :: (ascii " next-hop=\"" ++
        (escape text ++ [0x22]))) := by
    rw [bytes_fieldValue, List.append_assoc, List.append_assoc]
    rfl
  rw [readProxyStatus, hvalue, dropPrefix_append, Option.bind_some,
    Splitting.splitOnce_append error.semicolon_notMem_token]
  simp only [dropPrefix_append, Option.bind_some, readQuoted_escape, if_true]

/-- **What a refusal says is read back from its field**: its error, and the address of the last
attempt when the error is about it. -/
theorem readProxyStatus_fieldsWithNextHop (error : ProxyError) (nextHop : Option SocketAddr) :
    ∃ value, error.fieldsWithNextHop nextHop = [(proxyStatus, value)] ∧
      readProxyStatus value.bytes = some (error.token,
        (nextHop.filter fun _ => error.disclosesNextHop).map SocketAddr.display) := by
  rw [fieldsWithNextHop]
  rcases nextHop.filter fun _ => error.disclosesNextHop with - | address
  · exact ⟨error.fieldValue, rfl, error.readProxyStatus_fieldValue⟩
  · have hquoted : Visible (sfString address.display) :=
      Visible.append (show Visible [0x22] by simp [Visible, isFieldValue])
        ((visible_display address).escape.append (by simp [Visible, isFieldValue]))
    have hvisible : isFieldValue (error.fieldValue.bytes ++ ascii "; next-hop=" ++
        sfString address.display) = true :=
      isFieldValue_iff.mpr (((isFieldValue_iff.mp error.fieldValue.valid).append
        (isFieldValue_iff.mp (by decide))).append hquoted)
    refine ⟨⟨_, hvisible⟩, ?_, error.readProxyStatus_nextHop address.display⟩
    simp only [Fields.append, FieldValue.parse, dif_pos hvisible, Option.getD_some,
      List.nil_append]

/-- **Two refusals that read alike** have the same error, and name the same address. -/
theorem fieldsWithNextHop_inj {error error' : ProxyError} {nextHop nextHop' : Option SocketAddr}
    (h : error.fieldsWithNextHop nextHop = error'.fieldsWithNextHop nextHop') :
    error = error' ∧ (error.disclosesNextHop = true →
      nextHop.map (fun address => (address.ip, address.port, address.scopeId)) =
        nextHop'.map fun address => (address.ip, address.port, address.scopeId)) := by
  obtain ⟨value, hfields, hread⟩ := error.readProxyStatus_fieldsWithNextHop nextHop
  obtain ⟨value', hfields', hread'⟩ := error'.readProxyStatus_fieldsWithNextHop nextHop'
  rw [hfields, hfields'] at h
  obtain rfl : value = value' := by simpa using h
  rw [hread] at hread'
  simp only [Option.some.injEq, Prod.mk.injEq] at hread'
  obtain ⟨htoken, hhop⟩ := hread'
  obtain rfl := token_injective htoken
  refine ⟨rfl, fun hdiscloses => ?_⟩
  simp only [hdiscloses] at hhop
  rcases nextHop with - | address <;> rcases nextHop' with - | address'
  · rfl
  · cases hhop
  · cases hhop
  · obtain ⟨hip, hport, hscope⟩ := SocketAddr.display_inj (Option.some.inj hhop)
    simp [hip, hport, hscope]

end ProxyError

end Volto
