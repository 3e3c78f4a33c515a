import Mathlib.Algebra.Order.Ring.Nat

/-!
# Byte Strings

What the modules share about byte strings: the bytes of an ASCII literal of the source, the
slices a caller can pass, which no allocation makes longer than `isize::MAX`, and the standard
library's predicates on bytes. A `str` is its bytes.

## Main results

* `fromUtf8_of_ascii`: ASCII bytes are text.
-/

namespace Volto

/-- The bytes of an ASCII literal, `b"…"` in the source. -/
def ascii (s : String) : List UInt8 :=
  s.toList.map fun c => UInt8.ofNat c.toNat

/-- The largest `isize` of the supported targets, and so the longest slice there is. -/
def isizeMax : ℕ := 2 ^ 63 - 1

/-- The largest `usize` of the supported targets. -/
def addressMax : ℕ := 2 ^ 64 - 1

/-- A byte slice: no value of the language is longer than `isizeMax`. -/
structure Slice where
  bytes : List UInt8
  length_le : bytes.length ≤ isizeMax

/-- A slice's length fits the `u64` it is written as. -/
theorem Slice.length_lt (s : Slice) : s.bytes.length < 2 ^ 64 :=
  Nat.lt_of_le_of_lt s.length_le (by decide)

/-- A fact about all bytes is one about the numbers below 256. -/
theorem forall_byte {p : UInt8 → Prop} (h : ∀ n < 256, p (UInt8.ofNat n)) (byte : UInt8) :
    p byte := by
  have := h byte.toNat byte.toNat_lt
  rwa [UInt8.ofNat_toNat] at this

/-! ### Character classes -/

/-- `A` to `Z`. -/
def isAsciiUppercase (byte : UInt8) : Bool :=
  0x41 ≤ byte && byte ≤ 0x5a

/-- `a` to `z`. -/
def isAsciiLowercase (byte : UInt8) : Bool :=
  0x61 ≤ byte && byte ≤ 0x7a

/-- `0` to `9`. -/
def isAsciiDigit (byte : UInt8) : Bool :=
  0x30 ≤ byte && byte ≤ 0x39

/-- A letter of either case. -/
def isAsciiAlphabetic (byte : UInt8) : Bool :=
  isAsciiUppercase byte || isAsciiLowercase byte

/-- A letter or a digit. -/
def isAsciiAlphanumeric (byte : UInt8) : Bool :=
  isAsciiAlphabetic byte || isAsciiDigit byte

/-- The small letter of a capital, every other byte as it is. -/
def toAsciiLowercase (byte : UInt8) : UInt8 :=
  if isAsciiUppercase byte then byte + 0x20 else byte

/-- Equality of strings up to the case of their ASCII letters. -/
def eqIgnoreAsciiCase (a b : List UInt8) : Bool :=
  a.map toAsciiLowercase == b.map toAsciiLowercase

/-- Lowercase strings are equal up to case exactly when they are equal. -/
theorem eqIgnoreAsciiCase_of_lower {a b : List UInt8}
    (ha : ∀ byte ∈ a, isAsciiUppercase byte = false)
    (hb : ∀ byte ∈ b, isAsciiUppercase byte = false) :
    eqIgnoreAsciiCase a b = true ↔ a = b := by
  have hfix : ∀ bytes : List UInt8, (∀ byte ∈ bytes, isAsciiUppercase byte = false) →
      bytes.map toAsciiLowercase = bytes := by
    intro bytes h
    have hbyte : ∀ byte ∈ bytes, toAsciiLowercase byte = id byte := by
      intro byte hmem
      rw [toAsciiLowercase, h byte hmem]
      rfl
    rw [List.map_congr_left hbyte, List.map_id]
  rw [eqIgnoreAsciiCase, hfix a ha, hfix b hb, beq_iff_eq]

/-! ### Text -/

/-- Reads bytes as text, which they are when they are valid UTF-8. -/
def fromUtf8 (bytes : List UInt8) : Option (List UInt8) :=
  if bytes.toByteArray.validateUTF8 then some bytes else none

/-- **ASCII bytes are text.** -/
theorem fromUtf8_of_ascii {bytes : List UInt8} (h : ∀ byte ∈ bytes, byte < 0x80) :
    fromUtf8 bytes = some bytes := by
  have hchar : ∀ byte : UInt8, byte < 0x80 →
      String.utf8EncodeChar (Char.ofNat byte.toNat) = [byte] := by
    exact forall_byte (by decide +kernel)
  have hencode : (bytes.map fun byte => Char.ofNat byte.toNat).utf8Encode =
      bytes.toByteArray := by
    rw [List.utf8Encode, List.flatMap_map]
    congr 1
    induction bytes with
    | nil => rfl
    | cons byte bytes ih =>
        rw [List.flatMap_cons, hchar byte (h byte (List.mem_cons_self ..)),
          ih fun b hb => h b (List.mem_cons_of_mem _ hb), List.singleton_append]
  have hvalid : bytes.toByteArray.validateUTF8 = true := by
    rw [ByteArray.validateUTF8_eq_true_iff, ← hencode]
    exact ByteArray.isValidUTF8_utf8Encode
  rw [fromUtf8, if_pos hvalid]

end Volto
