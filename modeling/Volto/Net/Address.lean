import Volto.Lib.Numerals
import Volto.Lib.Splitting
import Volto.Net.Literals
import Volto.Net.Policy

/-!
# Addresses as Text

How the standard library writes an address and reads one. An IPv4 address is four decimal octets
between dots. An IPv6 address is eight groups between colons in lowercase hexadecimal, of which the
first longest run of zeros is elided when it is longer than one; an IPv4-mapped one ends in the
IPv4 address. A socket address brackets an IPv6 address, with its scope, and ends in the port.

## Main results

* `IpAddr.parse_display`: an address that was written is read back.
* `SocketAddr.display_inj`: two socket addresses that are written alike are one, but for the flow
  label, which is not written.
-/

namespace Volto

open Numerals Prefixes

namespace Policy

/-! ### Reading -/

/-- The number that hexadecimal digits spell. -/
def hexadecimal (digits : List UInt8) : ℕ :=
  digits.foldl (fun n digit => 16 * n + hexValue digit) 0

/-- `text.parse::<Ipv4Addr>()`. -/
def Ipv4Addr.parse (text : List UInt8) : Option Ipv4Addr :=
  match text.splitOn 0x2e with
  | [a, b, c, d] =>
      if isOctet a && isOctet b && isOctet c && isOctet d then
        some (.new (.ofNat (decimal a)) (.ofNat (decimal b)) (.ofNat (decimal c))
          (.ofNat (decimal d)))
      else none
  | _ => none

namespace Ipv6Addr

/-- The address of eight segments. -/
def ofSegments (segments : List UInt16) : Ipv6Addr :=
  ⟨.ofFn fun i : Fin 16 =>
    if i.val % 2 = 0 then (segments.getD (i.val / 2) 0 >>> 8).toUInt8
    else (segments.getD (i.val / 2) 0).toUInt8⟩

/-- The groups between the colons. An IPv4 address stands for two, and only where the address
ends. -/
def readGroups (ends : Bool) : List (List UInt8) → Option (List UInt16)
  | [] => some []
  | [last] =>
      if isGroup last then some [.ofNat (hexadecimal last)]
      else if ends then (Ipv4Addr.parse last).map pairOf else none
  | group :: groups =>
      if isGroup group then (readGroups ends groups).map (.ofNat (hexadecimal group) :: ·) else none

/-- The groups of one side of an elision, which may be empty. -/
def readSide (ends : Bool) (text : List UInt8) : Option (List UInt16) :=
  readGroups ends (if text = [] then [] else text.splitOn 0x3a)

/-- `text.parse::<Ipv6Addr>()`. -/
def parse (text : List UInt8) : Option Ipv6Addr :=
  match splitElision text with
  | none =>
      (readSide true text).bind fun groups =>
        if groups.length = 8 then some (ofSegments groups) else none
  | some (head, tail) =>
      match readSide false head, readSide true tail with
      | some before, some after =>
          if before.length + after.length ≤ 7 then
            some (ofSegments
              (before ++ List.replicate (8 - before.length - after.length) 0 ++ after))
          else none
      | _, _ => none

end Ipv6Addr

/-- `text.parse::<IpAddr>()`. -/
def IpAddr.parse (text : List UInt8) : Option IpAddr :=
  ((Ipv4Addr.parse text).map .v4).or ((Ipv6Addr.parse text).map .v6)

/-- `SocketAddr::new`. -/
def SocketAddr.new : IpAddr → UInt16 → SocketAddr
  | .v4 ip, port => .v4 ip port
  | .v6 ip, port => .v6 ip port 0 0

/-! ### Writing -/

/-- A digit, as a lowercase letter from ten on. -/
def digitByte (digit : ℕ) : UInt8 :=
  .ofNat (if digit < 10 then 0x30 + digit else 0x57 + digit)

/-- A number in decimal. -/
def showDecimal (n : ℕ) : List UInt8 :=
  (numeral 10 n).map digitByte

/-- A number in hexadecimal. -/
def showHexadecimal (n : ℕ) : List UInt8 :=
  (numeral 16 n).map digitByte

/-- `Display` of an `Ipv4Addr`. -/
def Ipv4Addr.display (ip : Ipv4Addr) : List UInt8 :=
  [0x2e].intercalate (ip.octets.toList.map fun octet => showDecimal octet.toNat)

namespace Ipv6Addr

/-- A run of segments. -/
structure Span where
  start : ℕ
  len : ℕ
deriving DecidableEq, Repr

/-- One segment of the loop that finds the longest run of zeros: the longest run so far, and the
one that ends here. -/
def spanStep (spans : Span × Span) (i : ℕ) (segment : UInt16) : Span × Span :=
  if segment = 0 then
    let current : Span := ⟨if spans.2.len = 0 then i else spans.2.start, spans.2.len + 1⟩
    (if spans.1.len < current.len then current else spans.1, current)
  else (spans.1, ⟨0, 0⟩)

/-- The loop over the segments. -/
def spans (segments : List UInt16) : Span × Span :=
  segments.zipIdx.foldl (fun spans entry => spanStep spans entry.2 entry.1) (⟨0, 0⟩, ⟨0, 0⟩)

/-- Segments between colons. -/
def showGroups (segments : List UInt16) : List UInt8 :=
  [0x3a].intercalate (segments.map fun segment => showHexadecimal segment.toNat)

/-- The segments of an address. -/
def segmentList (ip : Ipv6Addr) : List UInt16 :=
  List.ofFn ip.segments

/-- `Display` of an `Ipv6Addr`. -/
def display (ip : Ipv6Addr) : List UInt8 :=
  match ip.toIpv4Mapped with
  | some ipv4 => ascii "::ffff:" ++ ipv4.display
  | none =>
      let segments := ip.segmentList
      let zeroes := (spans segments).1
      if 1 < zeroes.len then
        showGroups (segments.take zeroes.start) ++ ascii "::" ++
          showGroups (segments.drop (zeroes.start + zeroes.len))
      else showGroups segments

end Ipv6Addr

/-- `Display` of an `IpAddr`. -/
def IpAddr.display : IpAddr → List UInt8
  | .v4 ip => ip.display
  | .v6 ip => ip.display

namespace SocketAddr

/-- The scope, as it is written behind the address. -/
def showScope (scopeId : UInt32) : List UInt8 :=
  if scopeId = 0 then [] else 0x25 :: showDecimal scopeId.toNat

/-- `Display` of a `SocketAddr`. -/
def display : SocketAddr → List UInt8
  | .v4 ip port => ip.display ++ 0x3a :: showDecimal port.toNat
  | .v6 ip port _ scopeId =>
      0x5b :: (ip.display ++ showScope scopeId ++ 0x5d :: 0x3a :: showDecimal port.toNat)

end SocketAddr

/-! ### Digits -/

/-- Decimal digits are read as they are written. -/
theorem digitByte_decimal : ∀ n < 10,
    isAsciiDigit (digitByte n) = true ∧ digit (digitByte n) = n ∧
      (digitByte n = 0x30 → n = 0) := by
  decide

/-- Hexadecimal digits are read as they are written. -/
theorem digitByte_hexadecimal : ∀ n < 16,
    isHexDigit (digitByte n) = true ∧ hexValue (digitByte n) = n := by
  decide

/-- Digits are read back in the base they were written in. -/
theorem foldl_numeral {base : ℕ} (hbase : 1 < base) {f : UInt8 → ℕ}
    (hf : ∀ digit < base, f (digitByte digit) = digit) (n : ℕ) :
    ((numeral base n).map digitByte).foldl (fun m byte => base * m + f byte) 0 = n := by
  rw [List.foldl_map]
  refine Eq.trans (List.foldl_ext _ _ 0 fun m digit hmem => ?_) (value_numeral base n)
  rw [hf digit (lt_of_mem_numeral hbase hmem)]

/-- A decimal number is read back. -/
theorem decimal_showDecimal (n : ℕ) : decimal (showDecimal n) = n :=
  foldl_numeral (by decide) (fun digit h => (digitByte_decimal digit h).2.1) n

/-- A hexadecimal number is read back. -/
theorem hexadecimal_showHexadecimal (n : ℕ) : hexadecimal (showHexadecimal n) = n :=
  foldl_numeral (by decide) (fun digit h => (digitByte_hexadecimal digit h).2) n

/-- A decimal number is written in decimal digits. -/
theorem isAsciiDigit_of_mem_showDecimal {n : ℕ} {byte : UInt8} (h : byte ∈ showDecimal n) :
    isAsciiDigit byte = true := by
  obtain ⟨digit, hdigit, rfl⟩ := List.mem_map.mp h
  exact (digitByte_decimal digit (lt_of_mem_numeral (by decide) hdigit)).1

/-- A hexadecimal number is written in hexadecimal digits. -/
theorem isHexDigit_of_mem_showHexadecimal {n : ℕ} {byte : UInt8} (h : byte ∈ showHexadecimal n) :
    isHexDigit byte = true := by
  obtain ⟨digit, hdigit, rfl⟩ := List.mem_map.mp h
  exact (digitByte_hexadecimal digit (lt_of_mem_numeral (by decide) hdigit)).1

/-- Every number has a digit. -/
theorem showDecimal_ne_nil (n : ℕ) : showDecimal n ≠ [] :=
  fun h => numeral_ne_nil 10 n (List.map_eq_nil_iff.mp h)

/-- Every number has a hexadecimal digit. -/
theorem showHexadecimal_ne_nil (n : ℕ) : showHexadecimal n ≠ [] :=
  fun h => numeral_ne_nil 16 n (List.map_eq_nil_iff.mp h)

/-- **An octet is written as one is read.** -/
theorem isOctet_showDecimal (octet : UInt8) : isOctet (showDecimal octet.toNat) = true := by
  have hlt := octet.toNat_lt
  have hlength : (showDecimal octet.toNat).length ≤ 3 := by
    rw [showDecimal, List.length_map]
    exact length_numeral_le (by decide) (by decide) (by omega)
  have hzero :
      (showDecimal octet.toNat).head? ≠ some 0x30 ∨ (showDecimal octet.toNat).length = 1 := by
    rw [or_iff_not_imp_left, not_not]
    intro hhead
    rw [showDecimal, List.head?_map, Option.map_eq_some_iff] at hhead
    obtain ⟨digit, hdigit, hbyte⟩ := hhead
    have hsmall := lt_of_mem_numeral (by decide) (List.mem_of_mem_head? hdigit)
    rw [(digitByte_decimal digit hsmall).2.2 hbyte] at hdigit
    rw [showDecimal, head_numeral hdigit, numeral_zero]
    rfl
  have hne : (showDecimal octet.toNat).length ≠ 0 := by
    simpa using showDecimal_ne_nil octet.toNat
  have hall : (showDecimal octet.toNat).all isAsciiDigit = true :=
    List.all_eq_true.mpr fun byte hmem => isAsciiDigit_of_mem_showDecimal hmem
  simp only [isOctet, decimal_showDecimal, hall, Bool.and_eq_true, decide_eq_true_eq,
    Bool.or_eq_true, and_true]
  exact ⟨⟨⟨hne, hlength⟩, hzero⟩, by omega⟩

/-- **A segment is written as a group is read.** -/
theorem isGroup_showHexadecimal (segment : UInt16) :
    isGroup (showHexadecimal segment.toNat) = true := by
  have hlt := segment.toNat_lt
  have hlength : (showHexadecimal segment.toNat).length ≤ 4 := by
    rw [showHexadecimal, List.length_map]
    exact length_numeral_le (by decide) (by decide) (by omega)
  have hne : (showHexadecimal segment.toNat).length ≠ 0 := by
    simpa using showHexadecimal_ne_nil segment.toNat
  have hall : (showHexadecimal segment.toNat).all isHexDigit = true :=
    List.all_eq_true.mpr fun byte hmem => isHexDigit_of_mem_showHexadecimal hmem
  simp only [isGroup, hall, Bool.and_eq_true, decide_eq_true_eq, and_true]
  exact ⟨hne, hlength⟩

/-! ### IPv4 -/

namespace Ipv4Addr

/-- **An IPv4 address that was written is read back.** -/
theorem parse_display (ip : Ipv4Addr) : parse ip.display = some ip := by
  obtain ⟨a, b, c, d, rfl⟩ := ip.exists_octets
  have hsplit : (Ipv4Addr.new a b c d).display.splitOn 0x2e =
      [showDecimal a.toNat, showDecimal b.toNat, showDecimal c.toNat, showDecimal d.toNat] := by
    refine List.splitOn_intercalate 0x2e (fun text htext hdot => ?_) (by simp [Ipv4Addr.new])
    obtain ⟨octet, -, rfl⟩ := List.mem_map.mp htext
    exact absurd (isAsciiDigit_of_mem_showDecimal hdot) (by decide)
  simp only [parse, hsplit, isOctet_showDecimal, Bool.and_self, if_true, decimal_showDecimal,
    UInt8.ofNat_toNat]

/-- What is read as an IPv4 address has no colon. -/
theorem colon_notMem_of_parse {text : List UInt8} {ip : Ipv4Addr} (h : parse text = some ip) :
    0x3a ∉ text := by
  intro hmem
  have htext : [0x2e].intercalate (text.splitOn 0x2e) = text := List.intercalate_splitOn _
  rw [← htext] at hmem
  rw [parse] at h
  split at h
  · next a b c d hsplit =>
      split_ifs at h with hoctets
      rw [hsplit] at hmem
      simp only [Bool.and_eq_true] at hoctets
      obtain ⟨⟨⟨ha, hb⟩, hc⟩, hd⟩ := hoctets
      rcases Splitting.mem_intercalate hmem with hdot | ⟨part, hpart, hin⟩
      · exact absurd hdot (by decide)
      · have hoctet : isOctet part = true := by
          simp only [List.mem_cons, List.not_mem_nil, or_false] at hpart
          rcases hpart with rfl | rfl | rfl | rfl <;> assumption
        simp only [isOctet, Bool.and_eq_true, List.all_eq_true] at hoctet
        exact absurd (hoctet.1.1.2 _ hin) (by decide)
  · cases h

end Ipv4Addr

/-! ### Elisions -/

/-- The part before the first colon is carried along. -/
theorem splitElision_append {text : List UInt8} (h : 0x3a ∉ text) (rest : List UInt8) :
    splitElision (text ++ 0x3a :: rest) =
      (splitElision (0x3a :: rest)).map fun sides => (text ++ sides.1, sides.2) := by
  induction text with
  | nil => simp
  | cons byte text ih =>
      rw [List.mem_cons, not_or] at h
      have hstep : ∀ second more, splitElision (byte :: second :: more) =
          (splitElision (second :: more)).map fun sides => (byte :: sides.1, sides.2) := by
        intro second more
        rw [splitElision, if_neg fun heq => h.1 heq.1.symm]
      rw [List.cons_append]
      rcases htext : text ++ 0x3a :: rest with - | ⟨second, more⟩
      · simp at htext
      · rw [hstep, ← htext, ih h.2, Option.map_map]
        rfl

/-- A colon with another byte behind it is carried along as well. -/
theorem splitElision_colon {rest : List UInt8} (hne : rest ≠ []) (h : rest.head? ≠ some 0x3a) :
    splitElision (0x3a :: rest) =
      (splitElision rest).map fun sides => (0x3a :: sides.1, sides.2) := by
  rcases rest with - | ⟨second, rest⟩
  · exact absurd rfl hne
  · rw [splitElision, if_neg fun heq => h (by rw [heq.2, List.head?_cons])]

/-- Texts that can stand between colons. -/
def Spelled (texts : List (List UInt8)) : Prop :=
  ∀ text ∈ texts, text ≠ [] ∧ 0x3a ∉ text

/-- What is spelled between colons starts with no colon. -/
theorem head_intercalate {text : List UInt8} {texts : List (List UInt8)}
    (h : Spelled (text :: texts)) (rest : List UInt8) :
    [0x3a].intercalate (text :: texts) ++ rest ≠ [] ∧
      ([0x3a].intercalate (text :: texts) ++ rest).head? ≠ some 0x3a := by
  obtain ⟨hne, hcolon⟩ := h text List.mem_cons_self
  obtain ⟨byte, text', rfl⟩ := List.exists_cons_of_ne_nil hne
  have hbyte : byte ≠ 0x3a := fun heq => hcolon (heq ▸ List.mem_cons_self)
  rcases texts with - | ⟨second, texts⟩
  · simpa using hbyte
  · simpa [List.intercalate_cons_cons] using hbyte

/-- **Texts between single colons elide nothing.** -/
theorem splitElision_intercalate {texts : List (List UInt8)} (h : Spelled texts) :
    splitElision ([0x3a].intercalate texts) = none := by
  induction texts with
  | nil => rfl
  | cons text texts ih =>
      obtain ⟨-, hcolon⟩ := h text List.mem_cons_self
      have hrest : Spelled texts := fun other hmem => h other (List.mem_cons_of_mem _ hmem)
      rcases texts with - | ⟨second, texts⟩
      · rw [List.intercalate_singleton]
        exact splitElision_of_notMem hcolon
      · obtain ⟨hne, hhead⟩ := head_intercalate hrest []
        rw [List.append_nil] at hne hhead
        rw [List.intercalate_cons_cons, List.append_assoc, List.singleton_append,
          splitElision_append hcolon, splitElision_colon hne hhead, ih hrest]
        rfl

/-- **The elision behind them is the first.** -/
theorem splitElision_intercalate_append {texts : List (List UInt8)} (h : Spelled texts)
    (rest : List UInt8) :
    splitElision ([0x3a].intercalate texts ++ 0x3a :: 0x3a :: rest) =
      some ([0x3a].intercalate texts, rest) := by
  have helision : splitElision (0x3a :: 0x3a :: rest) = some ([], rest) := by
    rw [splitElision, if_pos ⟨rfl, rfl⟩]
  induction texts with
  | nil => exact helision
  | cons text texts ih =>
      obtain ⟨-, hcolon⟩ := h text List.mem_cons_self
      have hrest : Spelled texts := fun other hmem => h other (List.mem_cons_of_mem _ hmem)
      rcases texts with - | ⟨second, texts⟩
      · rw [List.intercalate_singleton, splitElision_append hcolon, helision]
        simp
      · obtain ⟨hne, hhead⟩ := head_intercalate hrest (0x3a :: 0x3a :: rest)
        rw [List.intercalate_cons_cons, List.append_assoc, List.append_assoc, List.singleton_append,
          splitElision_append hcolon, splitElision_colon hne hhead, ih hrest]
        simp

/-! ### IPv6 -/

namespace Ipv6Addr

variable {segments front back : List UInt16}

/-- Segments are spelled as groups are. -/
theorem spelled_map (segments : List UInt16) :
    Spelled (segments.map fun segment => showHexadecimal segment.toNat) := by
  intro text hmem
  obtain ⟨segment, -, rfl⟩ := List.mem_map.mp hmem
  exact ⟨showHexadecimal_ne_nil _,
    fun hcolon => absurd (isHexDigit_of_mem_showHexadecimal hcolon) (by decide)⟩

/-- A group is read, and then those behind it. -/
theorem readGroups_cons {ends : Bool} {group : List UInt8} {groups : List (List UInt8)}
    (hgroup : isGroup group = true) :
    readGroups ends (group :: groups) =
      (readGroups ends groups).map (.ofNat (hexadecimal group) :: ·) := by
  rcases groups with - | ⟨second, groups⟩
  · simp only [readGroups, if_pos hgroup, Option.map_some]
  · rw [readGroups, if_pos hgroup]
    simp

/-- Groups that were written are read back. -/
theorem readGroups_map (ends : Bool) (segments : List UInt16) :
    readGroups ends (segments.map fun segment => showHexadecimal segment.toNat) =
      some segments := by
  induction segments with
  | nil => rfl
  | cons segment segments ih =>
      rw [List.map_cons, readGroups_cons (isGroup_showHexadecimal segment), ih,
        hexadecimal_showHexadecimal, UInt16.ofNat_toNat]
      rfl

/-- **One side of an elision is read back.** -/
theorem readSide_showGroups (ends : Bool) (segments : List UInt16) :
    readSide ends (showGroups segments) = some segments := by
  rcases segments with - | ⟨segment, segments⟩
  · rfl
  · have hspelled := spelled_map (segment :: segments)
    have hne : showGroups (segment :: segments) ≠ [] := by
      simpa [showGroups] using (head_intercalate hspelled []).1
    rw [readSide, if_neg hne, showGroups,
      List.splitOn_intercalate 0x3a (fun text hmem => (hspelled text hmem).2) (by simp),
      readGroups_map]

/-- What the loop over the segments keeps: both runs are of zeros, the second one ends here. -/
structure SpanInv (front : List UInt16) (spans : Span × Span) : Prop where
  longest : spans.1.start + spans.1.len ≤ front.length
  zeroes : ∀ i, spans.1.start ≤ i → i < spans.1.start + spans.1.len → front[i]? = some 0
  ends : spans.2.len = 0 ∨ spans.2.start + spans.2.len = front.length
  current : ∀ i, spans.2.start ≤ i → i < spans.2.start + spans.2.len → front[i]? = some 0

/-- A zero makes the run that ends here longer, or starts one. -/
theorem SpanInv.extend {spans : Span × Span} (h : SpanInv front spans) {start : ℕ}
    (hstart : start = if spans.2.len = 0 then front.length else spans.2.start) :
    start + (spans.2.len + 1) = (front ++ [0]).length ∧
      ∀ i, start ≤ i → i < start + (spans.2.len + 1) → (front ++ [0])[i]? = some 0 := by
  have hlast : (front ++ [(0 : UInt16)])[front.length]? = some 0 := by simp
  rw [List.length_append, List.length_singleton]
  split_ifs at hstart with hlen
  · refine ⟨by omega, fun i hle hlt => ?_⟩
    obtain rfl : i = front.length := by omega
    exact hlast
  · have hends := h.ends.resolve_left hlen
    refine ⟨by omega, fun i hle hlt => ?_⟩
    rcases Nat.lt_or_ge i front.length with hin | hout
    · rw [List.getElem?_append_left hin]
      exact h.current i (by omega) (by omega)
    · obtain rfl : i = front.length := by omega
      exact hlast

/-- One more segment keeps the longest run and the one that ends here. -/
theorem SpanInv.step {spans : Span × Span} (h : SpanInv front spans) (segment : UInt16) :
    SpanInv (front ++ [segment]) (spanStep spans front.length segment) := by
  have hlongest : spans.1.start + spans.1.len ≤ (front ++ [segment]).length :=
    h.longest.trans (by simp)
  have hzeroes : ∀ i, spans.1.start ≤ i → i < spans.1.start + spans.1.len →
      (front ++ [segment])[i]? = some 0 := by
    intro i hstart hend
    rw [List.getElem?_append_left (Nat.lt_of_lt_of_le hend h.longest)]
    exact h.zeroes i hstart hend
  by_cases hzero : segment = 0
  · subst hzero
    obtain ⟨hends, hcurrent⟩ := h.extend rfl
    rw [spanStep, if_pos rfl]
    by_cases hlonger : spans.1.len < spans.2.len + 1
    · simp only [hlonger, if_true]
      exact ⟨hends.le, hcurrent, .inr hends, hcurrent⟩
    · simp only [hlonger, if_false]
      exact ⟨hlongest, hzeroes, .inr hends, hcurrent⟩
  · rw [spanStep, if_neg hzero]
    exact ⟨hlongest, hzeroes, .inl rfl, fun i _ hend => absurd hend (by simp)⟩

/-- **The loop finds the first longest run of zeros.** -/
theorem spanInv_spans (segments : List UInt16) : SpanInv segments (spans segments) := by
  induction segments using List.reverseRecOn with
  | nil => exact ⟨Nat.le_refl _, by simp [spans], .inl rfl, by simp [spans]⟩
  | append_singleton front segment ih =>
      have hspans : spans (front ++ [segment]) = spanStep (spans front) front.length segment := by
        rw [spans, List.zipIdx_append, List.foldl_append, spans]
        simp
      rw [hspans]
      exact ih.step segment

/-- **What is elided are zeros.** -/
theorem eq_elided (segments : List UInt16) :
    segments = segments.take (spans segments).1.start ++
      List.replicate (spans segments).1.len 0 ++
      segments.drop ((spans segments).1.start + (spans segments).1.len) := by
  have hinv := spanInv_spans segments
  have hrun : (segments.drop (spans segments).1.start).take (spans segments).1.len =
      List.replicate (spans segments).1.len 0 := by
    have hlongest := hinv.longest
    refine List.ext_getElem? fun i => ?_
    rw [List.getElem?_take, List.getElem?_drop, List.getElem?_replicate]
    split_ifs with hi
    · exact hinv.zeroes _ (Nat.le_add_right ..) (by omega)
    · rfl
  conv_lhs => rw [← List.take_append_drop (spans segments).1.start segments,
    ← List.take_append_drop (spans segments).1.len (segments.drop (spans segments).1.start), hrun,
    List.drop_drop]
  rw [List.append_assoc]

/-! ### Segments and octets -/

/-- The value of a segment. -/
theorem toNat_segment (high low : UInt8) :
    (segment high low).toNat = high.toNat * 256 + low.toNat := by
  have hlow : low.toBitVec.toNat < 2 ^ 8 := low.toBitVec.isLt
  change (high.toBitVec ++ low.toBitVec).toNat = _
  rw [BitVec.toNat_append, ← Nat.shiftLeft_add_eq_or_of_lt hlow, Nat.shiftLeft_eq]
  rfl

/-- The high octet of a segment. -/
theorem toUInt8_segment_high (high low : UInt8) :
    (segment high low >>> 8).toUInt8 = high := by
  refine UInt8.toNat_inj.mp ?_
  have hhigh := high.toNat_lt
  have hlow := low.toNat_lt
  have height : UInt16.toNat 8 % 16 = 8 := rfl
  rw [UInt16.toNat_toUInt8, UInt16.toNat_shiftRight, toNat_segment, height,
    Nat.shiftRight_eq_div_pow]
  omega

/-- The low octet of a segment. -/
theorem toUInt8_segment_low (high low : UInt8) : (segment high low).toUInt8 = low := by
  refine UInt8.toNat_inj.mp ?_
  have hlow := low.toNat_lt
  rw [UInt16.toNat_toUInt8, toNat_segment]
  omega

/-- An address is made of its segments. -/
theorem ofSegments_segmentList (ip : Ipv6Addr) : ofSegments ip.segmentList = ip := by
  obtain ⟨octets⟩ := ip
  refine congrArg mk (Vector.ext fun i hi => ?_)
  have hget : ((Ipv6Addr.mk octets).segmentList).getD (i / 2) 0 =
      (Ipv6Addr.mk octets).segments ⟨i / 2, by omega⟩ := by
    rw [List.getD_eq_getElem?_getD, segmentList, List.getElem?_ofFn, dif_pos (by omega)]
    rfl
  rw [Vector.getElem_ofFn, hget]
  split_ifs with heven
  · rw [segments, toUInt8_segment_high]
    congr 1
    exact Nat.mul_div_cancel' (Nat.dvd_of_mod_eq_zero heven)
  · rw [segments, toUInt8_segment_low]
    congr 1
    replace heven : ¬i % 2 = 0 := heven
    change 2 * (i / 2) + 1 = i
    omega

/-- An address has eight segments. -/
theorem length_segmentList (ip : Ipv6Addr) : ip.segmentList.length = 8 := by
  rw [segmentList, List.length_ofFn]

/-- The segments of an IPv4-mapped address. -/
theorem segmentList_of_mapped {ip : Ipv6Addr} {ipv4 : Ipv4Addr}
    (h : ip.toIpv4Mapped = some ipv4) :
    ip.segmentList = List.replicate 5 0 ++ 0xffff :: pairOf ipv4 := by
  obtain ⟨o₀, o₁, o₂, o₃, o₄, o₅, o₆, o₇, o₈, o₉, o₁₀, o₁₁, o₁₂, o₁₃, o₁₄, o₁₅, rfl⟩ :=
    ip.exists_octets
  rw [toIpv4Mapped] at h
  split_ifs at h with hmapped
  obtain rfl := Option.some.inj h
  have hoctets := eq_of_beq hmapped
  simp only [Vector.toList_mk, List.take_succ_cons, List.take_zero, List.cons.injEq,
    and_true] at hoctets
  obtain ⟨rfl, rfl, rfl, rfl, rfl, rfl, rfl, rfl, rfl, rfl, rfl, rfl⟩ := hoctets
  have hzeroes : segment 0 0 = 0 := by decide
  have hones : segment 0xff 0xff = 0xffff := by decide
  simp only [segmentList, List.ofFn_succ, List.ofFn_zero]
  change [segment 0 0, segment 0 0, segment 0 0, segment 0 0, segment 0 0, segment 0xff 0xff,
    segment o₁₂ o₁₃, segment o₁₄ o₁₅] = _
  rw [hzeroes, hones]
  rfl

/-- A mapped address is read back. -/
theorem parse_mapped (ipv4 : Ipv4Addr) :
    parse (ascii "::ffff:" ++ ipv4.display) =
      some (ofSegments (List.replicate 5 0 ++ 0xffff :: pairOf ipv4)) := by
  have hdot : isGroup ipv4.display = false := by
    refine Bool.eq_false_iff.mpr fun hgroup => ?_
    simp only [isGroup, Bool.and_eq_true, List.all_eq_true] at hgroup
    have hmem : (0x2e : UInt8) ∈ ipv4.display := by
      obtain ⟨a, b, c, d, rfl⟩ := ipv4.exists_octets
      simp [Ipv4Addr.display, Ipv4Addr.new, List.intercalate_cons_cons]
    exact absurd (hgroup.2 _ hmem) (by decide)
  have hsplit : splitElision (ascii "::ffff:" ++ ipv4.display) =
      some ([], ascii "ffff:" ++ ipv4.display) :=
    splitElision_intercalate_append (fun _ hmem => absurd hmem List.not_mem_nil) _
  have hparts : (ascii "ffff:" ++ ipv4.display).splitOn 0x3a = [ascii "ffff", ipv4.display] :=
    Splitting.splitOn_eq_pair.mpr ⟨rfl, by decide,
      Ipv4Addr.colon_notMem_of_parse ipv4.parse_display⟩
  have htail : readSide true (ascii "ffff:" ++ ipv4.display) = some (0xffff :: pairOf ipv4) := by
    rw [readSide, if_neg (by simp [ascii]), hparts, readGroups_cons (by decide), readGroups, hdot,
      ipv4.parse_display]
    rfl
  have hhead : readSide false [] = some [] := rfl
  rw [parse, hsplit]
  simp only [hhead, htail]
  rfl

/-- An address with an elision is read back. -/
theorem parse_elided {segments : List UInt16} {start len : ℕ} (hlength : segments.length = 8)
    (hle : start + len ≤ segments.length) (hlen : 1 < len)
    (heq : segments = segments.take start ++ List.replicate len 0 ++ segments.drop (start + len)) :
    parse (showGroups (segments.take start) ++ ascii "::" ++
      showGroups (segments.drop (start + len))) = some (ofSegments segments) := by
  have hsplit := splitElision_intercalate_append (spelled_map (segments.take start))
    (showGroups (segments.drop (start + len)))
  have htext : showGroups (segments.take start) ++ ascii "::" ++
      showGroups (segments.drop (start + len)) =
      showGroups (segments.take start) ++ 0x3a :: 0x3a ::
        showGroups (segments.drop (start + len)) := by
    rw [List.append_assoc]
    rfl
  have hfront : (segments.take start).length = start := by
    rw [List.length_take]
    omega
  have hback : (segments.drop (start + len)).length = 8 - (start + len) := by
    rw [List.length_drop, hlength]
  have hzeroes : 8 - start - (8 - (start + len)) = len := by omega
  rw [← showGroups] at hsplit
  rw [parse, htext, hsplit]
  simp only [readSide_showGroups, hfront, hback, hzeroes]
  rw [if_pos (by omega), ← heq]

/-- An address that is written in full is read back. -/
theorem parse_whole {segments : List UInt16} (hlength : segments.length = 8) :
    parse (showGroups segments) = some (ofSegments segments) := by
  rw [parse, showGroups, splitElision_intercalate (spelled_map _), ← showGroups]
  simp only [readSide_showGroups, Option.bind_some, hlength, if_true]

/-- **An IPv6 address that was written is read back.** -/
theorem parse_display (ip : Ipv6Addr) : parse ip.display = some ip := by
  rw [display]
  split
  · next ipv4 hmapped =>
      rw [parse_mapped, ← segmentList_of_mapped hmapped, ofSegments_segmentList]
  · have hlength := ip.length_segmentList
    have hinv := spanInv_spans ip.segmentList
    dsimp only
    split_ifs with hlen
    · rw [parse_elided hlength hinv.longest hlen (eq_elided _), ofSegments_segmentList]
    · rw [parse_whole hlength, ofSegments_segmentList]

end Ipv6Addr

/-! ### The two readers agree -/

/-- What parses as an IPv4 address is what the literals say. -/
theorem Ipv4Addr.isSome_parse (text : List UInt8) :
    (Ipv4Addr.parse text).isSome = parsesAsIpv4 text := by
  rw [Ipv4Addr.parse, parsesAsIpv4]
  rcases text.splitOn 0x2e with - | ⟨a, - | ⟨b, - | ⟨c, - | ⟨d, - | ⟨e, parts⟩⟩⟩⟩⟩
  · rfl
  · rfl
  · rfl
  · rfl
  · simp only
    cases isOctet a && isOctet b && isOctet c && isOctet d <;> rfl
  · rfl

namespace Ipv6Addr

/-- Groups are read where they are counted. -/
theorem map_length_readGroups (ends : Bool) (groups : List (List UInt8)) :
    (readGroups ends groups).map List.length = countGroups ends groups := by
  induction groups with
  | nil => rfl
  | cons group groups ih =>
      rcases groups with - | ⟨second, groups⟩
      · rw [readGroups, countGroups, ← Ipv4Addr.isSome_parse]
        by_cases hgroup : isGroup group = true
        · rw [if_pos hgroup, if_pos hgroup]
          rfl
        · rw [if_neg hgroup, if_neg hgroup]
          cases ends <;> cases Ipv4Addr.parse group <;> rfl
      · rw [readGroups, countGroups, ← ih]
        · split_ifs
          · simp [Function.comp_def]
          · rfl
        · simp
        · simp

/-- A side is read where its groups are counted. -/
theorem map_length_readSide (ends : Bool) (text : List UInt8) :
    (readSide ends text).map List.length = groupsOf ends text := by
  rw [readSide, map_length_readGroups, groupsOf]

/-- **What is read as an address is what parses as one.** -/
theorem isSome_parse (text : List UInt8) : (parse text).isSome = parsesAsIpv6 text := by
  rw [parse, parsesAsIpv6]
  cases splitElision text with
  | none =>
      simp only [← map_length_readSide]
      cases readSide true text with
      | none => rfl
      | some groups => by_cases hlength : groups.length = 8 <;> simp [hlength]
  | some sides =>
      simp only [← map_length_readSide]
      cases readSide false sides.1 with
      | none => rfl
      | some before =>
          cases readSide true sides.2 with
          | none => rfl
          | some after =>
              by_cases hlength : before.length + after.length ≤ 7 <;> simp [hlength]

end Ipv6Addr

/-- **An address that was written is read back.** -/
theorem IpAddr.parse_display (ip : IpAddr) : IpAddr.parse ip.display = some ip := by
  cases ip with
  | v4 ip => simp [IpAddr.parse, IpAddr.display, ip.parse_display]
  | v6 ip =>
      have hcolon : 0x3a ∈ ip.display := by
        by_contra hnot
        have hsome := Ipv6Addr.isSome_parse ip.display
        rw [ip.parse_display, parsesAsIpv6_of_colon_notMem hnot] at hsome
        cases hsome
      have hnone : Ipv4Addr.parse ip.display = none := by
        rw [Option.eq_none_iff_forall_ne_some]
        exact fun ipv4 hparse => Ipv4Addr.colon_notMem_of_parse hparse hcolon
      simp [IpAddr.parse, IpAddr.display, hnone, ip.parse_display]

/-- Two addresses that are written alike are one. -/
theorem IpAddr.display_inj {ip ip' : IpAddr} (h : ip.display = ip'.display) : ip = ip' := by
  have hparse := congrArg IpAddr.parse h
  rw [ip.parse_display, ip'.parse_display] at hparse
  exact Option.some.inj hparse

/-! ### Socket addresses -/

/-- Numbers that are written alike are one. -/
theorem showDecimal_inj {n m : ℕ} (h : showDecimal n = showDecimal m) : n = m := by
  rw [← decimal_showDecimal n, h, decimal_showDecimal]

/-- A byte that is no hexadecimal digit, no dot and no colon is in no address. -/
theorem notMem_display {byte : UInt8} (hhex : isHexDigit byte = false) (hdot : byte ≠ 0x2e)
    (hcolon : byte ≠ 0x3a) (ip : IpAddr) : byte ∉ ip.display := by
  have hnumeral : ∀ n, byte ∉ showDecimal n := by
    intro n hmem
    have hdigit := isAsciiDigit_of_mem_showDecimal hmem
    rw [isHexDigit, hdigit] at hhex
    cases hhex
  have hipv4 : ∀ ipv4 : Ipv4Addr, byte ∉ ipv4.display := by
    intro ipv4 hmem
    rcases Splitting.mem_intercalate hmem with heq | ⟨part, hpart, hin⟩
    · exact hdot heq
    · obtain ⟨octet, -, rfl⟩ := List.mem_map.mp hpart
      exact hnumeral _ hin
  have hgroups : ∀ segments : List UInt16, byte ∉ Ipv6Addr.showGroups segments := by
    intro segments hmem
    rcases Splitting.mem_intercalate hmem with heq | ⟨part, hpart, hin⟩
    · exact hcolon heq
    · obtain ⟨segment, -, rfl⟩ := List.mem_map.mp hpart
      rw [isHexDigit_of_mem_showHexadecimal hin] at hhex
      cases hhex
  have hmapped : byte ∉ ascii "::ffff:" := by
    intro hmem
    have hcases : byte = 0x3a ∨ byte = 0x66 ∨ byte = 0x3a := by simpa [ascii] using hmem
    rcases hcases with rfl | rfl | rfl
    · exact hcolon rfl
    · exact absurd hhex (by decide)
    · exact hcolon rfl
  have helision : byte ∉ ascii "::" := by
    intro hmem
    exact hcolon (by simpa [ascii] using hmem)
  cases ip with
  | v4 ip => exact hipv4 ip
  | v6 ip =>
      rw [IpAddr.display, Ipv6Addr.display]
      split
      · exact fun hmem => (List.mem_append.mp hmem).elim hmapped (hipv4 _)
      · dsimp only
        split_ifs
        · intro hmem
          rcases List.mem_append.mp hmem with hmem | hmem
          · exact (List.mem_append.mp hmem).elim (hgroups _) helision
          · exact hgroups _ hmem
        · exact hgroups _

namespace SocketAddr

/-- The port of a socket address. -/
def port : SocketAddr → UInt16
  | .v4 _ port => port
  | .v6 _ port _ _ => port

/-- The scope of a socket address, which IPv4 has none of. -/
def scopeId : SocketAddr → UInt32
  | .v4 _ _ => 0
  | .v6 _ _ _ scopeId => scopeId

/-- An address and its scope are told apart by the percent sign. -/
theorem showScope_inj {ip ip' : Ipv6Addr} {scope scope' : UInt32}
    (h : ip.display ++ showScope scope = ip'.display ++ showScope scope') :
    ip.display = ip'.display ∧ scope = scope' := by
  have hpercent : ∀ ip : Ipv6Addr, (0x25 : UInt8) ∉ ip.display :=
    fun ip => notMem_display (by decide) (by decide) (by decide) (.v6 ip)
  rw [showScope, showScope] at h
  split_ifs at h with hzero hzero' hzero'
  · rw [List.append_nil, List.append_nil] at h
    exact ⟨h, hzero.trans hzero'.symm⟩
  · rw [List.append_nil] at h
    exact absurd (h ▸ List.mem_append_right _ List.mem_cons_self) (hpercent ip)
  · rw [List.append_nil] at h
    exact absurd (h ▸ List.mem_append_right _ List.mem_cons_self) (hpercent ip')
  · obtain ⟨hdisplay, hscope⟩ := Splitting.append_cons_inj (hpercent ip) (hpercent ip') h
    exact ⟨hdisplay, UInt32.toNat_inj.mp (showDecimal_inj hscope)⟩

/-- **What is written of a socket address tells it apart**, by address, port and scope. -/
theorem display_inj {a b : SocketAddr} (h : a.display = b.display) :
    a.ip = b.ip ∧ a.port = b.port ∧ a.scopeId = b.scopeId := by
  have hcolon : ∀ ip : Ipv4Addr, (0x3a : UInt8) ∉ ip.display :=
    fun ip => Ipv4Addr.colon_notMem_of_parse ip.parse_display
  have hbracket : ∀ (ip : Ipv6Addr) (scope : UInt32),
      (0x5d : UInt8) ∉ ip.display ++ showScope scope := by
    intro ip scope hmem
    rcases List.mem_append.mp hmem with hmem | hmem
    · exact notMem_display (by decide) (by decide) (by decide) (.v6 ip) hmem
    · rw [showScope] at hmem
      split_ifs at hmem
      · exact absurd hmem List.not_mem_nil
      · rcases List.mem_cons.mp hmem with heq | hmem
        · exact absurd heq (by decide)
        · exact absurd (isAsciiDigit_of_mem_showDecimal hmem) (by decide)
  have hopening : ∀ (ip : Ipv4Addr) (port : UInt16) (text : List UInt8),
      ip.display ++ 0x3a :: showDecimal port.toNat ≠ 0x5b :: text := by
    intro ip port text heq
    have hmem : (0x5b : UInt8) ∈ ip.display ++ 0x3a :: showDecimal port.toNat :=
      heq ▸ List.mem_cons_self
    rcases List.mem_append.mp hmem with hmem | hmem
    · exact notMem_display (by decide) (by decide) (by decide) (.v4 ip) hmem
    · rcases List.mem_cons.mp hmem with hbad | hmem
      · exact absurd hbad (by decide)
      · exact absurd (isAsciiDigit_of_mem_showDecimal hmem) (by decide)
  rcases a with ⟨ip, p⟩ | ⟨ip, p, flow, scope⟩ <;>
    rcases b with ⟨ip', p'⟩ | ⟨ip', p', flow', scope'⟩
  · obtain ⟨hdisplay, hport⟩ := Splitting.append_cons_inj (hcolon ip) (hcolon ip') h
    exact ⟨@IpAddr.display_inj (.v4 ip) (.v4 ip') hdisplay,
      UInt16.toNat_inj.mp (showDecimal_inj hport), rfl⟩
  · exact absurd h (hopening ip p _)
  · exact absurd h.symm (hopening ip' p' _)
  · obtain ⟨hinner, hport⟩ := Splitting.append_cons_inj (hbracket ip scope) (hbracket ip' scope')
      (List.cons.inj h).2
    obtain ⟨hdisplay, hscope⟩ := showScope_inj hinner
    exact ⟨@IpAddr.display_inj (.v6 ip) (.v6 ip') hdisplay,
      UInt16.toNat_inj.mp (showDecimal_inj (List.cons.inj hport).2), hscope⟩

end SocketAddr

end Policy

end Volto
