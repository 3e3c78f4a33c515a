import Mathlib.Tactic.IntervalCases
import Mathlib.Tactic.Tauto
import Volto.Bytes
import Volto.Lib.Prefixes

/-!
# The Destination Policy

`policy.rs`: which addresses the proxy is willing to dial. The source asks two dozen questions of
octets and segments, after it has unwrapped the IPv6 addresses that stand for an IPv4 one. Here
the policy is a table of prefixes, and the code decides exactly what the table says of the address
that is really reached, however it is spelled.

## Main results

* `policy_is_table`: `allows_address` is the verdict of the table on the effective address.
-/

namespace Volto

open Prefixes

namespace Policy

/-- `Ipv4Addr` of the standard library. -/
structure Ipv4Addr where
  octets : Vector UInt8 4
deriving DecidableEq, Repr

/-- `Ipv6Addr` of the standard library. -/
structure Ipv6Addr where
  octets : Vector UInt8 16
deriving DecidableEq, Repr

/-- An address of either family. -/
inductive IpAddr where
  | v4 (ip : Ipv4Addr)
  | v6 (ip : Ipv6Addr)
deriving DecidableEq, Repr

/-- `SocketAddr` of the standard library. -/
inductive SocketAddr where
  | v4 (ip : Ipv4Addr) (port : UInt16)
  | v6 (ip : Ipv6Addr) (port : UInt16) (flowinfo scopeId : UInt32)
deriving DecidableEq, Repr

/-- The address without its port. -/
def SocketAddr.ip : SocketAddr → IpAddr
  | .v4 ip _ => .v4 ip
  | .v6 ip _ _ _ => .v6 ip

/-! ### The standard library's questions -/

namespace Ipv4Addr

/-- The address `a.b.c.d`. -/
def new (a b c d : UInt8) : Ipv4Addr :=
  ⟨#v[a, b, c, d]⟩

/-- `0.0.0.0`. -/
def isUnspecified (ip : Ipv4Addr) : Bool :=
  ip.octets == #v[0, 0, 0, 0]

/-- `255.255.255.255`. -/
def isBroadcast (ip : Ipv4Addr) : Bool :=
  ip.octets == #v[255, 255, 255, 255]

/-- `224.0.0.0/4`. -/
def isMulticast (ip : Ipv4Addr) : Bool :=
  ip.octets[0] ≥ 224 && ip.octets[0] ≤ 239

/-- `127.0.0.0/8`. -/
def isLoopback (ip : Ipv4Addr) : Bool :=
  ip.octets[0] == 127

/-- `Ipv4Addr::is_private`: the three blocks of RFC 1918. -/
def isPrivate (ip : Ipv4Addr) : Bool :=
  ip.octets[0] == 10 || (ip.octets[0] == 172 && ip.octets[1] ≥ 16 && ip.octets[1] ≤ 31) ||
    (ip.octets[0] == 192 && ip.octets[1] == 168)

/-- `169.254.0.0/16`. -/
def isLinkLocal (ip : Ipv4Addr) : Bool :=
  ip.octets[0] == 169 && ip.octets[1] == 254

end Ipv4Addr

namespace Ipv6Addr

/-- The two segments that an IPv4 address stands for. -/
def pairOf (ip : Ipv4Addr) : List UInt16 :=
  [segment ip.octets[0] ip.octets[1], segment ip.octets[2] ip.octets[3]]

/-- A segment of `Ipv6Addr::segments`. -/
def segments (ip : Ipv6Addr) (i : Fin 8) : UInt16 :=
  segment ip.octets[2 * i.val] ip.octets[2 * i.val + 1]

/-- `::`. -/
def isUnspecified (ip : Ipv6Addr) : Bool :=
  ip.octets == Vector.replicate 16 0

/-- `::1`. -/
def isLoopback (ip : Ipv6Addr) : Bool :=
  ip.octets == #v[0, 0, 0, 0, 0, 0, 0, 0, 0, 0, 0, 0, 0, 0, 0, 1]

/-- `ff00::/8`. -/
def isMulticast (ip : Ipv6Addr) : Bool :=
  ip.segments 0 &&& 0xff00 == 0xff00

/-- `Ipv6Addr::to_ipv4_mapped`. -/
def toIpv4Mapped (ip : Ipv6Addr) : Option Ipv4Addr :=
  if ip.octets.toList.take 12 == [0, 0, 0, 0, 0, 0, 0, 0, 0, 0, 0xff, 0xff] then
    some (.new ip.octets[12] ip.octets[13] ip.octets[14] ip.octets[15])
  else none

/-- An IPv4-mapped address as the IPv4 address in it. -/
def toCanonical (ip : Ipv6Addr) : IpAddr :=
  match ip.toIpv4Mapped with
  | some mapped => .v4 mapped
  | none => .v6 ip

end Ipv6Addr

/-- The unspecified address of either family. -/
def IpAddr.isUnspecified : IpAddr → Bool
  | .v4 ip => ip.isUnspecified
  | .v6 ip => ip.isUnspecified

/-! ### The policy of the source -/

/-- The form that the kernel will route. -/
def canonical : IpAddr → IpAddr
  | .v6 v6 => v6.toCanonical
  | .v4 v4 => .v4 v4

/-- Addresses that are never a legitimate target. -/
def isNeverAllowed : IpAddr → Bool
  | .v4 v4 => v4.isUnspecified || v4.isBroadcast || v4.isMulticast
  | .v6 v6 => v6.isUnspecified || v6.isMulticast

/-- `192.0.2.0/24`, `198.51.100.0/24` and `203.0.113.0/24`. -/
def isIpv4Documentation (octets : Vector UInt8 4) : Bool :=
  (octets[0] == 192 && octets[1] == 0 && octets[2] == 2) ||
    (octets[0] == 198 && octets[1] == 51 && octets[2] == 100) ||
    (octets[0] == 203 && octets[1] == 0 && octets[2] == 113)

/-- `2001:db8::/32`. -/
def isIpv6Documentation (v6 : Ipv6Addr) : Bool :=
  v6.segments 0 == 0x2001 && v6.segments 1 == 0x0db8

/-- `2001:2::/48`. -/
def isIpv6Benchmarking (v6 : Ipv6Addr) : Bool :=
  v6.segments 0 == 0x2001 && v6.segments 1 == 0x0002 && v6.segments 2 == 0x0000

/-- `2001:10::/28`. -/
def isOrchid (v6 : Ipv6Addr) : Bool :=
  v6.segments 0 == 0x2001 && v6.segments 1 &&& 0xfff0 == 0x0010

/-- `100::/64`. -/
def isDiscardOnly (v6 : Ipv6Addr) : Bool :=
  v6.segments 0 == 0x0100 && [v6.segments 1, v6.segments 2, v6.segments 3].all (· == 0)

/-- `64:ff9b:1::/48`. -/
def isLocalUseNat64 (v6 : Ipv6Addr) : Bool :=
  v6.octets.toList.take 6 == [0x00, 0x64, 0xff, 0x9b, 0x00, 0x01]

/-- `fc00::/7`. -/
def isUniqueLocal (v6 : Ipv6Addr) : Bool :=
  v6.segments 0 &&& 0xfe00 == 0xfc00

/-- `fe80::/10`. -/
def isUnicastLinkLocal (v6 : Ipv6Addr) : Bool :=
  v6.segments 0 &&& 0xffc0 == 0xfe80

/-- `fec0::/10`. -/
def isSiteLocal (v6 : Ipv6Addr) : Bool :=
  v6.segments 0 &&& 0xffc0 == 0xfec0

/-- `::/96`, the unspecified and the loopback address among it. -/
def isIpv4Compatible (v6 : Ipv6Addr) : Bool :=
  (v6.octets.toList.take 12).all (· == 0)

/-- Addresses only reachable when `allow_private_networks` is on. -/
def isPrivate : IpAddr → Bool
  | .v4 v4 =>
      let octets := v4.octets
      octets[0] == 0 || v4.isLoopback || v4.isPrivate || v4.isLinkLocal ||
        (octets[0] == 100 && octets[1] &&& 0xc0 == 64) ||
        (octets[0] == 192 && octets[1] == 0 && octets[2] == 0) ||
        (octets[0] == 198 && octets[1] &&& 0xfe == 18) ||
        (octets[0] == 192 && octets[1] == 88 && octets[2] == 99) ||
        octets[0] &&& 0xf0 == 240 || isIpv4Documentation octets
  | .v6 v6 =>
      v6.isLoopback || isUniqueLocal v6 || isUnicastLinkLocal v6 || isSiteLocal v6 ||
        isIpv4Compatible v6 || isIpv6Documentation v6 || isIpv6Benchmarking v6 || isOrchid v6 ||
        isDiscardOnly v6 || isLocalUseNat64 v6

/-- The IPv4 address that an IPv6 transition address carries. -/
def embeddedIpv4 : IpAddr → Option Ipv4Addr
  | .v4 _ => none
  | .v6 v6 =>
      let octets := v6.octets
      if octets.toList.take 4 == [0x00, 0x64, 0xff, 0x9b] &&
          ((octets.toList.take 12).drop 4).all (· == 0) then
        some (.new octets[12] octets[13] octets[14] octets[15])
      else if octets.toList.take 2 == [0x20, 0x02] then
        some (.new octets[2] octets[3] octets[4] octets[5])
      else if octets.toList.take 4 == [0x20, 0x01, 0x00, 0x00] then
        some (.new (octets[12] ^^^ 0xff) (octets[13] ^^^ 0xff) (octets[14] ^^^ 0xff)
          (octets[15] ^^^ 0xff))
      else none

end Policy

/-- The destination rules in force for a connection. -/
structure Policy where
  /-- Whether loopback and other private ranges may be dialled. -/
  allowPrivateNetworks : Bool
  /-- Target ports that are refused regardless of address. -/
  deniedPorts : List UInt16
deriving DecidableEq, Repr

namespace Policy

/-- Whether a port may be dialled. -/
def allowsPort (policy : Policy) (port : UInt16) : Bool :=
  !policy.deniedPorts.contains port

/-- Whether one resolved address may be dialled. -/
def allowsAddress (policy : Policy) (ip : IpAddr) : Bool :=
  let ip := canonical ip
  let ip := (embeddedIpv4 ip).elim ip .v4
  if isNeverAllowed ip then false
  else if isPrivate ip then policy.allowPrivateNetworks
  else true

/-- The addresses that this proxy may dial. -/
def allowedAddresses (policy : Policy) (addresses : List SocketAddr) : List SocketAddr :=
  addresses.filter fun address => policy.allowsAddress address.ip

/-- Whether every resolved address is the unspecified one. -/
def isDnsBlackhole (addresses : List SocketAddr) : Bool :=
  !addresses.isEmpty && addresses.all fun address => (canonical address.ip).isUnspecified

/-! ### The table -/

/-- A block of IPv4 addresses, `a.b.c.d/length`. -/
def block4 (a b c d : UInt8) (length : ℕ) : Prefix where
  base := [a, b, c, d]
  length

/-- A block of IPv6 addresses, by the octets that its address starts with, zeros after them. -/
def block6 (front : List UInt8) (length : ℕ) : Prefix where
  base := front ++ List.replicate (16 - front.length) 0
  length

/-- What no policy lets through: the unspecified address, the broadcast address, multicast. -/
def neverTable : IpAddr → List Prefix
  | .v4 _ => [block4 0 0 0 0 32, block4 255 255 255 255 32, block4 224 0 0 0 4]
  | .v6 _ => [block6 [] 128, block6 [0xff] 8]

/-- What follows `allow_private_networks`. -/
def privateTable : IpAddr → List Prefix
  | .v4 _ =>
      [block4 0 0 0 0 8, block4 10 0 0 0 8, block4 100 64 0 0 10, block4 127 0 0 0 8,
        block4 169 254 0 0 16, block4 172 16 0 0 12, block4 192 0 0 0 24, block4 192 0 2 0 24,
        block4 192 88 99 0 24, block4 192 168 0 0 16, block4 198 18 0 0 15, block4 198 51 100 0 24,
        block4 203 0 113 0 24, block4 240 0 0 0 4]
  | .v6 _ =>
      [block6 [] 96, block6 [0xfc] 7, block6 [0xfe, 0x80] 10, block6 [0xfe, 0xc0] 10,
        block6 [0x20, 0x01, 0x0d, 0xb8] 32, block6 [0x20, 0x01, 0x00, 0x02] 48,
        block6 [0x20, 0x01, 0x00, 0x10] 28, block6 [0x01, 0x00] 64,
        block6 [0x00, 0x64, 0xff, 0x9b, 0x00, 0x01] 48]

/-- The octets of an address, four or sixteen. -/
def IpAddr.octets : IpAddr → List UInt8
  | .v4 ip => ip.octets.toList
  | .v6 ip => ip.octets.toList

/-- The address lies in a block of the table. -/
def In (table : IpAddr → List Prefix) (ip : IpAddr) : Prop :=
  ∃ block ∈ table ip, Within block ip.octets

/-- A table has finitely many blocks, so it can be looked through. -/
instance (table : IpAddr → List Prefix) (ip : IpAddr) : Decidable (In table ip) :=
  inferInstanceAs (Decidable (∃ block ∈ table ip, Within block ip.octets))

/-- What the table says of an address. -/
inductive Verdict where
  | refused
  | switched
  | allowed
deriving DecidableEq, Repr

/-- The rows that are always refused come before those of the switch. -/
def verdict (ip : IpAddr) : Verdict :=
  if In neverTable ip then .refused else if In privateTable ip then .switched else .allowed

/-- What a policy makes of a verdict. -/
def Verdict.follows (policy : Policy) : Verdict → Bool
  | .refused => false
  | .switched => policy.allowPrivateNetworks
  | .allowed => true

/-- A block of IPv6 addresses that stand for an IPv4 one, and where it is written. -/
structure Embedding where
  block : Prefix
  read : Ipv6Addr → Ipv4Addr

/-- The IPv4-mapped addresses, `64:ff9b::/96`, `2002::/16`, and `2001::/32` with the address
inverted. -/
def embeddings : List Embedding :=
  [{ block := block6 [0, 0, 0, 0, 0, 0, 0, 0, 0, 0, 0xff, 0xff] 96
     read := fun ip => .new ip.octets[12] ip.octets[13] ip.octets[14] ip.octets[15] },
   { block := block6 [0x00, 0x64, 0xff, 0x9b] 96
     read := fun ip => .new ip.octets[12] ip.octets[13] ip.octets[14] ip.octets[15] },
   { block := block6 [0x20, 0x02] 16
     read := fun ip => .new ip.octets[2] ip.octets[3] ip.octets[4] ip.octets[5] },
   { block := block6 [0x20, 0x01, 0x00, 0x00] 32
     read := fun ip => .new (~~~ip.octets[12]) (~~~ip.octets[13]) (~~~ip.octets[14])
       (~~~ip.octets[15]) }]

/-- The address that is reached. -/
def effective : IpAddr → IpAddr
  | .v4 ip => .v4 ip
  | .v6 ip =>
      match embeddings.find? fun embedding => Within embedding.block ip.octets.toList with
      | some embedding => .v4 (embedding.read ip)
      | none => .v6 ip

/-! ### Each question is a block -/

/-- An IPv4 address is its four octets. -/
theorem Ipv4Addr.exists_octets (ip : Ipv4Addr) : ∃ a b c d, ip = .new a b c d := by
  obtain ⟨octets⟩ := ip
  have hoctets : octets = #v[octets[0], octets[1], octets[2], octets[3]] := by
    ext i hi
    interval_cases i <;> rfl
  exact ⟨_, _, _, _, congrArg mk hoctets⟩

/-- An IPv6 address is its sixteen octets. -/
theorem Ipv6Addr.exists_octets (ip : Ipv6Addr) :
    ∃ o₀ o₁ o₂ o₃ o₄ o₅ o₆ o₇ o₈ o₉ o₁₀ o₁₁ o₁₂ o₁₃ o₁₄ o₁₅,
      ip = ⟨#v[o₀, o₁, o₂, o₃, o₄, o₅, o₆, o₇, o₈, o₉, o₁₀, o₁₁, o₁₂, o₁₃, o₁₄, o₁₅]⟩ := by
  obtain ⟨octets⟩ := ip
  have hoctets : octets = #v[octets[0], octets[1], octets[2], octets[3], octets[4], octets[5],
      octets[6], octets[7], octets[8], octets[9], octets[10], octets[11], octets[12], octets[13],
      octets[14], octets[15]] := by
    ext i hi
    interval_cases i <;> rfl
  exact ⟨_, _, _, _, _, _, _, _, _, _, _, _, _, _, _, _, congrArg mk hoctets⟩

/-- The masks of the prefixes that end within an octet. -/
theorem mask_values : mask 2 = 0xc0 ∧ mask 4 = 0xf0 ∧ mask 7 = 0xfe := by
  decide

/-- A mask of ones changes nothing. -/
theorem and_full_mask (o : UInt8) : o &&& 0xff = o :=
  UInt8.and_neg_one

/-- A range of octets that is a block of them: `0x10` to `0x1f`, `0xe0` to `0xef`. -/
theorem and_high_nibble (o : UInt8) :
    (o &&& 0xf0 = 16 ↔ o ≥ 16 ∧ o ≤ 31) ∧ (o &&& 0xf0 = 224 ↔ o ≥ 224 ∧ o ≤ 239) :=
  forall_byte (p := fun o =>
    (o &&& 0xf0 = 16 ↔ o ≥ 16 ∧ o ≤ 31) ∧ (o &&& 0xf0 = 224 ↔ o ≥ 224 ∧ o ≤ 239))
    (by decide +kernel) o

/-- **The tests of an IPv4 address that is always refused** are the rows of the table. -/
theorem isNeverAllowed_v4 (v4 : Ipv4Addr) :
    isNeverAllowed (.v4 v4) = true ↔ In neverTable (.v4 v4) := by
  obtain ⟨a, b, c, d, rfl⟩ := v4.exists_octets
  have hmulticast : (224 &&& 0xf0 : UInt8) = 224 := rfl
  simp only [isNeverAllowed, Ipv4Addr.isMulticast, Bool.or_eq_true, Bool.and_eq_true,
    decide_eq_true_eq]
  simp [In, neverTable, IpAddr.octets, block4, Ipv4Addr.new, Ipv4Addr.isUnspecified,
    Ipv4Addr.isBroadcast, mask_values, hmulticast, and_high_nibble, or_assoc]

/-- The private blocks of IPv4 in the order in which `is_private` asks for them. -/
def asked4 : List Prefix :=
  [block4 0 0 0 0 8, block4 127 0 0 0 8, block4 10 0 0 0 8, block4 172 16 0 0 12,
    block4 192 168 0 0 16, block4 169 254 0 0 16, block4 100 64 0 0 10, block4 192 0 0 0 24,
    block4 198 18 0 0 15, block4 192 88 99 0 24, block4 240 0 0 0 4, block4 192 0 2 0 24,
    block4 198 51 100 0 24, block4 203 0 113 0 24]

/-- **The tests of a private IPv4 address** are the rows of the table. -/
theorem isPrivate_v4 (v4 : Ipv4Addr) : isPrivate (.v4 v4) = true ↔ In privateTable (.v4 v4) := by
  have hisPerm : asked4.isPerm (privateTable (.v4 (.new 0 0 0 0))) = true := by decide +kernel
  have hperm : asked4.Perm (privateTable (.v4 v4)) := List.isPerm_iff.mp hisPerm
  have hasked : In privateTable (.v4 v4) ↔ ∃ block ∈ asked4, Within block v4.octets.toList :=
    exists_congr fun block => and_congr_left' hperm.mem_iff.symm
  rw [hasked]
  obtain ⟨a, b, c, d, rfl⟩ := v4.exists_octets
  have hshared : (64 &&& 0xc0 : UInt8) = 64 := rfl
  have hrfc1918 : (16 &&& 0xf0 : UInt8) = 16 := rfl
  have hbenchmark : (18 &&& 0xfe : UInt8) = 18 := rfl
  simp only [isPrivate, Ipv4Addr.isPrivate, Bool.or_eq_true, Bool.and_eq_true, decide_eq_true_eq]
  simp [asked4, block4, Ipv4Addr.new, Ipv4Addr.isLoopback, Ipv4Addr.isLinkLocal,
    isIpv4Documentation, mask_values, hshared, hrfc1918, hbenchmark, and_high_nibble, and_assoc,
    or_assoc]

/-- The test of `fc00::/7` is the row of the table. -/
theorem isUniqueLocal_iff (v6 : Ipv6Addr) :
    isUniqueLocal v6 = true ↔ Within (block6 [0xfc] 7) v6.octets.toList := by
  obtain ⟨_, _, _, _, _, _, _, _, _, _, _, _, _, _, _, _, rfl⟩ := v6.exists_octets
  have hmask : (0xfe00 : UInt16) = segment 0xfe 0 := by decide
  have hbase : (0xfc00 : UInt16) = segment 0xfc 0 := by decide
  simp [isUniqueLocal, Ipv6Addr.segments, block6, hmask, hbase, mask_values,
    show (0xfc &&& 0xfe : UInt8) = 0xfc from rfl]

/-- The test of `fe80::/10` is the row of the table. -/
theorem isUnicastLinkLocal_iff (v6 : Ipv6Addr) :
    isUnicastLinkLocal v6 = true ↔ Within (block6 [0xfe, 0x80] 10) v6.octets.toList := by
  obtain ⟨_, _, _, _, _, _, _, _, _, _, _, _, _, _, _, _, rfl⟩ := v6.exists_octets
  have hmask : (0xffc0 : UInt16) = segment 0xff 0xc0 := by decide
  have hbase : (0xfe80 : UInt16) = segment 0xfe 0x80 := by decide
  simp [isUnicastLinkLocal, Ipv6Addr.segments, block6, hmask, hbase, mask_values,
    and_full_mask, show (0x80 &&& 0xc0 : UInt8) = 0x80 from rfl]

/-- The test of `fec0::/10` is the row of the table. -/
theorem isSiteLocal_iff (v6 : Ipv6Addr) :
    isSiteLocal v6 = true ↔ Within (block6 [0xfe, 0xc0] 10) v6.octets.toList := by
  obtain ⟨_, _, _, _, _, _, _, _, _, _, _, _, _, _, _, _, rfl⟩ := v6.exists_octets
  have hmask : (0xffc0 : UInt16) = segment 0xff 0xc0 := by decide
  have hbase : (0xfec0 : UInt16) = segment 0xfe 0xc0 := by decide
  simp [isSiteLocal, Ipv6Addr.segments, block6, hmask, hbase, mask_values,
    and_full_mask]

/-- The test of `2001:db8::/32` is the row of the table. -/
theorem isIpv6Documentation_iff (v6 : Ipv6Addr) :
    isIpv6Documentation v6 = true ↔
      Within (block6 [0x20, 0x01, 0x0d, 0xb8] 32) v6.octets.toList := by
  obtain ⟨_, _, _, _, _, _, _, _, _, _, _, _, _, _, _, _, rfl⟩ := v6.exists_octets
  have hfirst : (0x2001 : UInt16) = segment 0x20 0x01 := by decide
  have hsecond : (0x0db8 : UInt16) = segment 0x0d 0xb8 := by decide
  simp [isIpv6Documentation, Ipv6Addr.segments, block6, hfirst, hsecond, and_assoc]

/-- The test of `2001:2::/48` is the row of the table. -/
theorem isIpv6Benchmarking_iff (v6 : Ipv6Addr) :
    isIpv6Benchmarking v6 = true ↔
      Within (block6 [0x20, 0x01, 0x00, 0x02] 48) v6.octets.toList := by
  obtain ⟨_, _, _, _, _, _, _, _, _, _, _, _, _, _, _, _, rfl⟩ := v6.exists_octets
  have hfirst : (0x2001 : UInt16) = segment 0x20 0x01 := by decide
  have hsecond : (0x0002 : UInt16) = segment 0x00 0x02 := by decide
  have hthird : (0x0000 : UInt16) = segment 0x00 0x00 := by decide
  simp [isIpv6Benchmarking, Ipv6Addr.segments, block6, hfirst, hsecond, hthird,
    and_assoc]

/-- The test of `2001:10::/28` is the row of the table. -/
theorem isOrchid_iff (v6 : Ipv6Addr) :
    isOrchid v6 = true ↔ Within (block6 [0x20, 0x01, 0x00, 0x10] 28) v6.octets.toList := by
  obtain ⟨_, _, _, _, _, _, _, _, _, _, _, _, _, _, _, _, rfl⟩ := v6.exists_octets
  have hfirst : (0x2001 : UInt16) = segment 0x20 0x01 := by decide
  have hmask : (0xfff0 : UInt16) = segment 0xff 0xf0 := by decide
  have hbase : (0x0010 : UInt16) = segment 0x00 0x10 := by decide
  simp [isOrchid, Ipv6Addr.segments, block6, hfirst, hmask, hbase, mask_values,
    and_full_mask, and_assoc, show (0x10 &&& 0xf0 : UInt8) = 0x10 from rfl]

/-- The test of `100::/64` is the row of the table. -/
theorem isDiscardOnly_iff (v6 : Ipv6Addr) :
    isDiscardOnly v6 = true ↔ Within (block6 [0x01, 0x00] 64) v6.octets.toList := by
  obtain ⟨o₀, o₁, o₂, o₃, o₄, o₅, o₆, o₇, _, _, _, _, _, _, _, _, rfl⟩ := v6.exists_octets
  have hfirst : (0x0100 : UInt16) = segment 0x01 0x00 := by decide
  have hrest : (0x0000 : UInt16) = segment 0x00 0x00 := by decide
  change (segment o₀ o₁ == 0x0100 &&
    [segment o₂ o₃, segment o₄ o₅, segment o₆ o₇].all (· == 0)) = true ↔ _
  simp [block6, hfirst, hrest, and_assoc]

/-- The test of `64:ff9b:1::/48` is the row of the table. -/
theorem isLocalUseNat64_iff (v6 : Ipv6Addr) :
    isLocalUseNat64 v6 = true ↔
      Within (block6 [0x00, 0x64, 0xff, 0x9b, 0x00, 0x01] 48) v6.octets.toList := by
  obtain ⟨_, _, _, _, _, _, _, _, _, _, _, _, _, _, _, _, rfl⟩ := v6.exists_octets
  simp [isLocalUseNat64, block6]

/-- The test of `::/96` is the row of the table. -/
theorem isIpv4Compatible_iff (v6 : Ipv6Addr) :
    isIpv4Compatible v6 = true ↔ Within (block6 [] 96) v6.octets.toList := by
  obtain ⟨_, _, _, _, _, _, _, _, _, _, _, _, _, _, _, _, rfl⟩ := v6.exists_octets
  simp [isIpv4Compatible, block6]

/-- The loopback address is one of the IPv4-compatible block. -/
theorem isIpv4Compatible_of_isLoopback {v6 : Ipv6Addr} (h : v6.isLoopback = true) :
    isIpv4Compatible v6 = true := by
  obtain ⟨octets⟩ := v6
  obtain rfl := eq_of_beq h
  rfl

/-- **The tests of a private IPv6 address** are the rows of the table. -/
theorem isPrivate_v6 (v6 : Ipv6Addr) : isPrivate (.v6 v6) = true ↔ In privateTable (.v6 v6) := by
  have hloopback := @isIpv4Compatible_of_isLoopback v6
  simp only [In, privateTable, IpAddr.octets, List.mem_cons, List.not_mem_nil, or_false,
    exists_eq_or_imp, exists_eq_left, ← isUniqueLocal_iff, ← isUnicastLinkLocal_iff,
    ← isSiteLocal_iff, ← isIpv4Compatible_iff, ← isIpv6Documentation_iff,
    ← isIpv6Benchmarking_iff, ← isOrchid_iff, ← isDiscardOnly_iff, ← isLocalUseNat64_iff,
    isPrivate, Bool.or_eq_true]
  tauto

/-- **The tests of an IPv6 address that is always refused** are the rows of the table. -/
theorem isNeverAllowed_v6 (v6 : Ipv6Addr) :
    isNeverAllowed (.v6 v6) = true ↔ In neverTable (.v6 v6) := by
  obtain ⟨_, _, _, _, _, _, _, _, _, _, _, _, _, _, _, _, rfl⟩ := v6.exists_octets
  have hmask : (0xff00 : UInt16) = segment 0xff 0 := by decide
  have hzero : Vector.replicate 16 (0 : UInt8) =
      #v[0, 0, 0, 0, 0, 0, 0, 0, 0, 0, 0, 0, 0, 0, 0, 0] := rfl
  simp [isNeverAllowed, In, neverTable, IpAddr.octets, block6, Ipv6Addr.isUnspecified, hzero,
    Ipv6Addr.isMulticast, Ipv6Addr.segments, hmask, and_full_mask]

/-- The tests of what is always refused are the table, in both families. -/
theorem isNeverAllowed_iff (ip : IpAddr) : isNeverAllowed ip = true ↔ In neverTable ip := by
  obtain v4 | v6 := ip
  · exact isNeverAllowed_v4 v4
  · exact isNeverAllowed_v6 v6

/-- The tests of what is private are the table, in both families. -/
theorem isPrivate_iff (ip : IpAddr) : isPrivate ip = true ↔ In privateTable ip := by
  obtain v4 | v6 := ip
  · exact isPrivate_v4 v4
  · exact isPrivate_v6 v6

/-! ### The address that is reached -/

/-- The blocks of embedded addresses are apart: an address is read by its own embedding. -/
theorem effective_of_within {embedding : Embedding} (hmem : embedding ∈ embeddings) {ip : Ipv6Addr}
    (h : Within embedding.block ip.octets.toList) :
    effective (.v6 ip) = .v4 (embedding.read ip) := by
  obtain ⟨_, _, _, _, _, _, _, _, _, _, _, _, _, _, _, _, rfl⟩ := ip.exists_octets
  simp only [embeddings, List.mem_cons, List.not_mem_nil, or_false] at hmem
  rcases hmem with rfl | rfl | rfl | rfl
  all_goals
    simp [block6] at h
    simp [effective, embeddings, block6, h]

/-- An address that embeds none stands for itself. -/
theorem effective_of_not_within {ip : Ipv6Addr}
    (h : ∀ embedding ∈ embeddings, ¬Within embedding.block ip.octets.toList) :
    effective (.v6 ip) = .v6 ip := by
  have hnone :
      (embeddings.find? fun embedding => Within embedding.block ip.octets.toList) = none := by
    rw [List.find?_eq_none]
    intro embedding hmem
    simpa using h embedding hmem
  rw [effective, hnone]

/-- A mapped address is the first of the embeddings. -/
theorem toIpv4Mapped_eq (ip : Ipv6Addr) :
    ip.toIpv4Mapped =
      if Within embeddings[0].block ip.octets.toList then some (embeddings[0].read ip)
      else none := by
  obtain ⟨_, _, _, _, _, _, _, _, _, _, _, _, _, _, _, _, rfl⟩ := ip.exists_octets
  simp [Ipv6Addr.toIpv4Mapped, embeddings, block6]

/-- The other three embeddings are tried in their order. -/
theorem embeddedIpv4_eq (ip : Ipv6Addr) :
    embeddedIpv4 (.v6 ip) =
      if Within embeddings[1].block ip.octets.toList then some (embeddings[1].read ip)
      else if Within embeddings[2].block ip.octets.toList then some (embeddings[2].read ip)
      else if Within embeddings[3].block ip.octets.toList then some (embeddings[3].read ip)
      else none := by
  have hinvert (o : UInt8) : o ^^^ 0xff = ~~~o := UInt8.xor_neg_one
  obtain ⟨_, _, _, _, _, _, _, _, _, _, _, _, _, _, _, _, rfl⟩ := ip.exists_octets
  simp [embeddedIpv4, embeddings, block6, hinvert, and_assoc]

/-- **Unwrapping in the order of the source reads the embedding.** -/
theorem unwrap_eq_effective (ip : IpAddr) :
    (embeddedIpv4 (canonical ip)).elim (canonical ip) .v4 = effective ip := by
  obtain v4 | v6 := ip
  · rfl
  rw [canonical, Ipv6Addr.toCanonical, toIpv4Mapped_eq]
  by_cases hmapped : Within embeddings[0].block v6.octets.toList
  · rw [if_pos hmapped, effective_of_within (List.getElem_mem _) hmapped]
    rfl
  rw [if_neg hmapped]
  simp only [embeddedIpv4_eq]
  by_cases hnat64 : Within embeddings[1].block v6.octets.toList
  · rw [if_pos hnat64, effective_of_within (List.getElem_mem _) hnat64]
    rfl
  rw [if_neg hnat64]
  by_cases h6to4 : Within embeddings[2].block v6.octets.toList
  · rw [if_pos h6to4, effective_of_within (List.getElem_mem _) h6to4]
    rfl
  rw [if_neg h6to4]
  by_cases hteredo : Within embeddings[3].block v6.octets.toList
  · rw [if_pos hteredo, effective_of_within (List.getElem_mem _) hteredo]
    rfl
  rw [if_neg hteredo, effective_of_not_within]
  · rfl
  · intro embedding hmem
    simp only [embeddings, List.mem_cons, List.not_mem_nil, or_false] at hmem
    rcases hmem with rfl | rfl | rfl | rfl
    · exact hmapped
    · exact hnat64
    · exact h6to4
    · exact hteredo

/-- **The policy is its table**, whatever the policy and however an address is spelled. -/
structure Decides (policy : Policy) : Prop where
  table : ∀ ip, policy.allowsAddress ip = (verdict (effective ip)).follows policy
  /-- The spelling of an IPv4 address does not matter. -/
  embedded : ∀ embedding ∈ embeddings, ∀ ip : Ipv6Addr, Within embedding.block ip.octets.toList →
    policy.allowsAddress (.v6 ip) = policy.allowsAddress (.v4 (embedding.read ip))
  /-- The permissive policy allows whatever the strict one does, -/
  widens : ∀ ip, { policy with allowPrivateNetworks := false }.allowsAddress ip = true →
    { policy with allowPrivateNetworks := true }.allowsAddress ip = true
  /-- and differs from it on the private blocks, as far as these are not refused before. -/
  differs : ∀ ip, { policy with allowPrivateNetworks := true }.allowsAddress ip ≠
      { policy with allowPrivateNetworks := false }.allowsAddress ip ↔
    In privateTable (effective ip) ∧ ¬In neverTable (effective ip)
  /-- The allowed addresses are those of the given ones that the policy allows, in their order. -/
  addresses : ∀ addresses, (policy.allowedAddresses addresses).Sublist addresses ∧
    ∀ address, address ∈ policy.allowedAddresses addresses ↔
      address ∈ addresses ∧ policy.allowsAddress address.ip = true

/-- **The code's decision is the verdict on the address that is really reached.** -/
theorem allowsAddress_eq (policy : Policy) (ip : IpAddr) :
    policy.allowsAddress ip = (verdict (effective ip)).follows policy := by
  rw [allowsAddress]
  simp only [unwrap_eq_effective, isNeverAllowed_iff, isPrivate_iff, verdict]
  split
  · rfl
  · split <;> rfl

/-- What a policy allows, row by row. -/
theorem follows_verdict (policy : Policy) (ip : IpAddr) :
    (verdict ip).follows policy = true ↔
      ¬In neverTable ip ∧ (In privateTable ip → policy.allowPrivateNetworks = true) := by
  rw [verdict]
  split
  · simp_all [Verdict.follows]
  · split <;> simp_all [Verdict.follows]

/-- **The destination policy is exactly its prefix table.** -/
theorem policy_is_table (policy : Policy) : Decides policy where
  table := policy.allowsAddress_eq
  embedded embedding hmem ip h := by
    rw [allowsAddress_eq, allowsAddress_eq, effective_of_within hmem h]
    rfl
  widens ip h := by
    rw [allowsAddress_eq, follows_verdict] at h ⊢
    exact ⟨h.1, fun _ => rfl⟩
  differs ip := by
    rw [ne_eq, Bool.eq_iff_iff, allowsAddress_eq, allowsAddress_eq, follows_verdict,
      follows_verdict]
    simp only [Bool.false_eq_true]
    tauto
  addresses addresses := by
    rw [allowedAddresses]
    exact ⟨List.filter_sublist, fun address => List.mem_filter⟩

/-- The unspecified address of either family is always refused. -/
theorem isNeverAllowed_of_isUnspecified {ip : IpAddr} (h : ip.isUnspecified = true) :
    isNeverAllowed ((embeddedIpv4 ip).elim ip .v4) = true := by
  obtain v4 | v6 := ip
  · have hunspecified : v4.isUnspecified = true := h
    simp [isNeverAllowed, embeddedIpv4, hunspecified]
  · obtain ⟨octets⟩ := v6
    obtain rfl : octets = Vector.replicate 16 0 := eq_of_beq h
    decide

/-- A name that the resolver has blackholed has no address that may be dialled. -/
theorem allowedAddresses_of_blackhole (policy : Policy) {addresses : List SocketAddr}
    (h : isDnsBlackhole addresses = true) : policy.allowedAddresses addresses = [] := by
  rw [isDnsBlackhole, Bool.and_eq_true, List.all_eq_true] at h
  rw [allowedAddresses, List.filter_eq_nil_iff]
  intro address hmem
  simp [allowsAddress, isNeverAllowed_of_isUnspecified (h.2 address hmem)]

end Policy

end Volto
