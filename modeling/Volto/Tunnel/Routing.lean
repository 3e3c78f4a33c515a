import Volto.Auth.Authenticator
import Volto.Lib.StableSort
import Volto.Net.Address
import Volto.Tunnel.Authority

/-!
# What a Request Asks For

The checks that `tunnel/mod.rs` and `tunnel/udp.rs` make of a request before anything is done for
it: which fields it may not carry, how it is served, and what its target is. Then the order in
which `net.rs` puts the addresses of a target.

## Main results

* `targetOf_tcp`, `targetOf_udp`: the target of a request, by how it is served.
* `preferFamily_eq`, `preferred_of_sublist`: the preferred family comes first, each in the order of
  the resolver.
-/

namespace Volto

open Policy StableSort

namespace Tunnel

/-! ### The request -/

/-- How a request is served. -/
inductive Route
  | tcp
  | connectUdp
  | unsupportedProtocol (protocol : List UInt8)
  | notConnect
deriving DecidableEq, Repr

/-- The protocol of a UDP tunnel. -/
def connectUdp : List UInt8 := ascii "connect-udp"

/-- What kind of request this is. -/
def route (req : Request) : Route :=
  if req.method ≠ .connect then .notConnect
  else
    match req.protocol with
    | none => .tcp
    | some protocol => if protocol = connectUdp then .connectUdp else .unsupportedProtocol protocol

/-- Fields that are about one hop of another protocol version. -/
def connectionSpecificFields : List (List UInt8) :=
  [ascii "proxy-connection", ascii "keep-alive", ascii "transfer-encoding", ascii "upgrade"]

/-- The first field of a request that HTTP/3 does not allow. -/
def connectionSpecificField (req : Request) : Option (List UInt8) :=
  connectionSpecificFields.find? fun name => req.fields.contains name

/-- The checks of `udp::validate`. -/
def validate (req : Request) : Except String Unit :=
  if (req.scheme.elim true List.isEmpty) then .error "connect-udp requires a non-empty :scheme"
  else if req.fields.contains (ascii "content-length") then
    .error "content-length is forbidden on a capsule stream"
  else if req.fields.contains (ascii "content-type") then
    .error "content-type is forbidden on a capsule stream"
  else .ok ()

/-- The two kinds of tunnel. -/
inductive Kind
  | tcp
  | udp
deriving DecidableEq, Repr

/-- The fields of a 200. -/
def Kind.acceptedFields : Kind → Fields
  | .tcp => []
  | .udp => Fields.append [] (ascii "capsule-protocol") ⟨ascii "?1", by decide⟩

/-- What a tunnel is to lead to. -/
structure Target where
  kind : Kind
  host : List UInt8
  port : UInt16
deriving DecidableEq, Repr

/-- The target of a request, before `datagrams` and `admit_target`, or the status of its refusal. -/
def targetOf (percent : PercentDecoding) (req : Request) : Except Status Target :=
  match route req with
  | .tcp =>
      match req.authority with
      | none => .error .badRequest
      | some authority =>
          match splitAuthority authority with
          | .error _ => .error .badRequest
          | .ok (host, port) => .ok ⟨.tcp, host, .ofNat port⟩
  | .connectUdp =>
      match validate req with
      | .error _ => .error .badRequest
      | .ok () =>
          match parseTarget percent (req.path.getD []) req.query with
          | .error _ => .error .badRequest
          | .ok (host, port) => .ok ⟨.udp, host, .ofNat port⟩
  | .unsupportedProtocol _ | .notConnect => .error .notImplemented

section

variable (percent : PercentDecoding) {req : Request}

/-- The target of a CONNECT is its authority. -/
theorem targetOf_tcp {authority : List UInt8} (hroute : route req = .tcp)
    (hauthority : req.authority = some authority) :
    (∀ reason, splitAuthority authority = .error reason →
      targetOf percent req = .error .badRequest) ∧
    ∀ host port, splitAuthority authority = .ok (host, port) →
      targetOf percent req = .ok ⟨.tcp, host, .ofNat port⟩ := by
  constructor
  · intro reason hsplit
    simp only [targetOf, hroute, hauthority, hsplit]
  · intro host port hsplit
    simp only [targetOf, hroute, hauthority, hsplit]

/-- The target of a CONNECT-UDP is in its path, and the request is a valid one. -/
theorem targetOf_udp (hroute : route req = .connectUdp) :
    (∀ reason, validate req = .error reason → targetOf percent req = .error .badRequest) ∧
    (∀ reason, validate req = .ok () →
      parseTarget percent (req.path.getD []) req.query = .error reason →
      targetOf percent req = .error .badRequest) ∧
    ∀ host port, validate req = .ok () →
      parseTarget percent (req.path.getD []) req.query = .ok (host, port) →
      targetOf percent req = .ok ⟨.udp, host, .ofNat port⟩ := by
  refine ⟨?_, ?_, ?_⟩
  · intro reason hvalidate
    simp only [targetOf, hroute, hvalidate]
  · intro reason hvalidate hparse
    simp only [targetOf, hroute, hvalidate, hparse]
  · intro host port hvalidate hparse
    simp only [targetOf, hroute, hvalidate, hparse]

end

/-! ### Addresses -/

/-- `literal`: an address needs no lookup. -/
def literal (host : List UInt8) (port : UInt16) : Option SocketAddr :=
  (IpAddr.parse host).map fun ip => .new ip port

/-- The family that is tried first. -/
inductive IpFamilyPreference
  | ipv4
  | ipv6
  | system
deriving DecidableEq, Repr

/-- Whether an address is one of IPv6. -/
def isIpv6 : SocketAddr → Bool
  | .v4 _ _ => false
  | .v6 _ _ _ _ => true

/-- Sorts by whether an address is of the other family. The sort is stable. -/
def preferFamily (addresses : List SocketAddr) (preference : IpFamilyPreference) :
    List SocketAddr :=
  match preference with
  | .system => addresses
  | .ipv4 => addresses.mergeSort (falseFirst fun address => isIpv6 address != false)
  | .ipv6 => addresses.mergeSort (falseFirst fun address => isIpv6 address != true)

/-- The preference loses no address and adds none. -/
theorem perm_preferFamily (addresses : List SocketAddr) (preference : IpFamilyPreference) :
    (preferFamily addresses preference).Perm addresses := by
  cases preference with
  | system => exact .refl _
  | ipv4 | ipv6 => exact List.mergeSort_perm _ _

/-- One address is in order already. -/
@[simp] theorem preferFamily_singleton (address : SocketAddr) (preference : IpFamilyPreference) :
    preferFamily [address] preference = [address] :=
  List.perm_singleton.mp (perm_preferFamily [address] preference)

/-- The preference leaves an address if there was one. -/
theorem preferFamily_eq_nil {addresses : List SocketAddr} {preference : IpFamilyPreference} :
    preferFamily addresses preference = [] ↔ addresses = [] := by
  rw [← List.length_eq_zero_iff, (perm_preferFamily addresses preference).length_eq,
    List.length_eq_zero_iff]

/-- **The preferred family comes first**, and each family stays in the order of the resolver. -/
theorem preferFamily_eq (addresses : List SocketAddr) :
    preferFamily addresses .ipv4 =
        addresses.filter (fun address => !isIpv6 address) ++ addresses.filter isIpv6 ∧
      preferFamily addresses .ipv6 =
        addresses.filter isIpv6 ++ addresses.filter fun address => !isIpv6 address := by
  constructor
  · rw [preferFamily, mergeSort_falseFirst]
    simp
  · rw [preferFamily, mergeSort_falseFirst]
    simp

/-- **Some of the addresses of a target, in the order of preference**: those of the preferred family
before the others, and each family in the order in which the resolver gave it. -/
def Preferred (preference : IpFamilyPreference) (resolved addresses : List SocketAddr) : Prop :=
  match preference with
  | .system => addresses.Sublist resolved
  | .ipv4 => ∃ first second, addresses = first ++ second ∧
      first.Sublist (resolved.filter fun address => !isIpv6 address) ∧
      second.Sublist (resolved.filter isIpv6)
  | .ipv6 => ∃ first second, addresses = first ++ second ∧
      first.Sublist (resolved.filter isIpv6) ∧
      second.Sublist (resolved.filter fun address => !isIpv6 address)

/-- Whatever is left out, the order stays the preferred one. -/
theorem preferred_of_sublist {preference : IpFamilyPreference}
    {resolved addresses : List SocketAddr}
    (h : addresses.Sublist (preferFamily resolved preference)) :
    Preferred preference resolved addresses := by
  obtain ⟨hipv4, hipv6⟩ := preferFamily_eq resolved
  cases preference with
  | system => exact h
  | ipv4 =>
      rw [hipv4] at h
      obtain ⟨first, second, heq, hfirst, hsecond⟩ := List.sublist_append_iff.mp h
      exact ⟨first, second, heq, hfirst, hsecond⟩
  | ipv6 =>
      rw [hipv6] at h
      obtain ⟨first, second, heq, hfirst, hsecond⟩ := List.sublist_append_iff.mp h
      exact ⟨first, second, heq, hfirst, hsecond⟩

end Tunnel

end Volto
