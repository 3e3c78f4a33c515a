import Volto.Bytes

/-!
# Address Literals

Which texts the standard library's `Ipv4Addr` and `Ipv6Addr` parse from: four decimal octets
between dots, none with a leading zero; and eight groups of hexadecimal digits between colons, of
which one run may be elided as `::` and the last two may be spelled as an IPv4 address.

## Main results

* `parsesAsIpv6_of_colon_notMem`: every IPv6 literal has a colon.
-/

namespace Volto

/-- The value of a digit. -/
def digit (byte : UInt8) : ℕ :=
  byte.toNat - 0x30

/-- The number that decimal digits spell. -/
def decimal (digits : List UInt8) : ℕ :=
  digits.foldl (fun value byte => 10 * value + digit byte) 0

/-- One to three digits, without a leading zero, of a number below 256. -/
def isOctet (digits : List UInt8) : Bool :=
  digits.length ≠ 0 && digits.length ≤ 3 && digits.all isAsciiDigit &&
    (digits.head? ≠ some 0x30 || digits.length = 1) && decimal digits ≤ 255

/-- Whether `text.parse::<Ipv4Addr>()` is an address. -/
def parsesAsIpv4 (text : List UInt8) : Bool :=
  match text.splitOn 0x2e with
  | [a, b, c, d] => isOctet a && isOctet b && isOctet c && isOctet d
  | _ => false

/-- Whether a byte is a hexadecimal digit, of either case. -/
def isHexDigit (byte : UInt8) : Bool :=
  isAsciiDigit byte || 0x41 ≤ byte && byte ≤ 0x46 || 0x61 ≤ byte && byte ≤ 0x66

/-- The value of a hexadecimal digit. -/
def hexValue (byte : UInt8) : ℕ :=
  if isAsciiDigit byte then digit byte
  else if byte ≤ 0x46 then byte.toNat - 0x37
  else byte.toNat - 0x57

/-- One to four hexadecimal digits. -/
def isGroup (digits : List UInt8) : Bool :=
  digits.length ≠ 0 && digits.length ≤ 4 && digits.all isHexDigit

/-- The two sides of the first `::`. -/
def splitElision : List UInt8 → Option (List UInt8 × List UInt8)
  | first :: second :: rest =>
      if first = 0x3a ∧ second = 0x3a then some ([], rest)
      else (splitElision (second :: rest)).map fun sides => (first :: sides.1, sides.2)
  | _ => none

/-- How many groups are spelled between the colons. An IPv4 address stands for two, and only
where the address ends. -/
def countGroups (ends : Bool) : List (List UInt8) → Option ℕ
  | [] => some 0
  | [last] =>
      if isGroup last then some 1 else if ends && parsesAsIpv4 last then some 2 else none
  | group :: groups => if isGroup group then (countGroups ends groups).map (· + 1) else none

/-- The groups of one side of an elision, which may be empty. -/
def groupsOf (ends : Bool) (text : List UInt8) : Option ℕ :=
  countGroups ends (if text = [] then [] else text.splitOn 0x3a)

/-- Whether `text.parse::<Ipv6Addr>()` is an address. -/
def parsesAsIpv6 (text : List UInt8) : Bool :=
  match splitElision text with
  | none => groupsOf true text == some 8
  | some (head, tail) =>
      match groupsOf false head, groupsOf true tail with
      | some before, some after => before + after ≤ 7
      | _, _ => false

/-! ### An IPv6 literal has a colon -/

/-- A text without a colon has no elision. -/
theorem splitElision_of_notMem {text : List UInt8} (h : 0x3a ∉ text) :
    splitElision text = none := by
  induction text with
  | nil => rfl
  | cons first text ih =>
      obtain ⟨hfirst, htext⟩ := not_or.mp fun hor => h (List.mem_cons.mpr hor)
      obtain - | ⟨second, rest⟩ := text
      · rfl
      have hne : ¬ (first = 0x3a ∧ second = 0x3a) := fun heq => hfirst heq.1.symm
      rw [splitElision, if_neg hne, ih htext]
      rfl

/-- Without a colon there are at most two groups. -/
theorem groupsOf_of_notMem {text : List UInt8} (h : 0x3a ∉ text) (ends : Bool) :
    groupsOf ends text ≠ some 8 := by
  rw [groupsOf, List.splitOn_eq_singleton h]
  by_cases hempty : text = []
  · rw [if_pos hempty, countGroups]
    decide
  · rw [if_neg hempty, countGroups]
    split_ifs <;> decide

/-- **Every IPv6 literal has a colon.** -/
theorem parsesAsIpv6_of_colon_notMem {text : List UInt8} (h : 0x3a ∉ text) :
    parsesAsIpv6 text = false := by
  rw [parsesAsIpv6, splitElision_of_notMem h]
  exact beq_eq_false_iff_ne.mpr (groupsOf_of_notMem h true)

example : parsesAsIpv4 (ascii "192.0.2.1") = true ∧ parsesAsIpv4 (ascii "192.0.02.1") = false := by
  decide

example : parsesAsIpv6 (ascii "2001:db8::1") = true ∧
    parsesAsIpv6 (ascii "::ffff:192.0.2.1") = true ∧
    parsesAsIpv6 (ascii "1:2:3:4:5:6:7") = false := by
  decide

end Volto
