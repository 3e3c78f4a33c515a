import Volto.Auth.Base64
import Volto.Lib.Checked

/-!
# What the Base64 Decoder Accepts

`decode_base64` of `auth.rs` beside the encoder that its tests are written with. The tokens that are
accepted are told by how they look: symbols of the alphabet, and `=` at the very end. Padding is
counted anywhere in the last quantum, and what is counted elsewhere than at its end is refused
as a symbol that is none.

The decoder is written out once more with the arithmetic it does, in bytes, in words and in
lengths, and with its slices. None of it goes wrong.

## Main results

* `encodeBase64_eq`: the encoder of the tests is standard base64.
* `Indexed.decodeBase64_eq`: the decoder runs without a fault.
* `base64_is_exact`: what is accepted, and what it is read as.
-/

namespace Volto

open Base64

/-! ### The encoder of the tests -/

/-- One chunk of the input. -/
def encodeQuantum (quantum : List UInt8) : List UInt8 :=
  let bits := (List.range 3).foldl (fun bits i => (bits <<< 8) ||| (quantum.getD i 0).toNat) 0
  let significant := quantum.length + 1
  (List.range significant).map (fun i => symbol ((bits >>> (18 - 6 * i)) &&& 0x3f)) ++
    List.replicate (4 - significant) pad

/-- Standard base64, built without the decoder under test. -/
def encodeBase64 : List UInt8 → List UInt8
  | [] => []
  | [a] => encodeQuantum [a]
  | [a, b] => encodeQuantum [a, b]
  | a :: b :: c :: rest => encodeQuantum [a, b, c] ++ encodeBase64 rest

/-- The digits of a group are cut out of its bits. -/
theorem group_eq (n : ℕ) {count : ℕ} (h : count ≤ 4) :
    group n count = (List.range count).map fun i => (n >>> (18 - 6 * i)) &&& 0x3f := by
  have hdigit (shift : ℕ) : (n >>> shift) &&& 0x3f = n / 2 ^ shift % 64 := by
    rw [Nat.shiftRight_eq_div_pow]
    exact Nat.and_two_pow_sub_one_eq_mod _ 6
  have hrange : List.range count = [0, 1, 2, 3].take count := by
    rw [show [0, 1, 2, 3] = List.range 4 from rfl, List.take_range, Nat.min_eq_left h]
  rw [hrange, List.map_take, group]
  simp only [hdigit, List.map_cons, List.map_nil]
  rw [Nat.pow_zero, Nat.div_one]

/-- A quantum is encoded as the digits of its group, and padding. -/
theorem encodeQuantum_eq (quantum : List UInt8) (h : quantum.length ≤ 3) :
    encodeQuantum quantum =
      (group (BigEndian.ofBytes 0 ((List.range 3).map (quantum.getD · 0)))
        (quantum.length + 1)).map symbol ++ List.replicate (3 - quantum.length) pad := by
  rw [group_eq _ (Nat.succ_le_succ h), List.map_map, BigEndian.ofBytes, List.foldl_map,
    ← Nat.add_sub_add_right 3 1]
  rfl

/-- **The encoder of the tests is standard base64.** -/
theorem encodeBase64_eq (bytes : List UInt8) : encodeBase64 bytes = encode bytes := by
  induction bytes using encode.induct with
  | case1 => rfl
  | case2 a => exact encodeQuantum_eq [a] (Nat.le_add_left 1 2)
  | case3 a b => exact encodeQuantum_eq [a, b] (Nat.le_add_left 2 1)
  | case4 a b c rest ih =>
      rw [encodeBase64, encode, ih, encodeQuantum_eq [a, b, c] (Nat.le_refl 3)]
      rfl

namespace Indexed

open Checked

/-! ### The decoder, with its arithmetic -/

/-- `sextet`. -/
def sextet (byte : UInt8) : Except Stop ℕ :=
  if isAsciiUppercase byte then sub byte.toNat 0x41
  else if isAsciiLowercase byte then do
    let offset ← sub byte.toNat 0x61
    add 255 offset 26
  else if isAsciiDigit byte then do
    let offset ← sub byte.toNat 0x30
    add 255 offset 52
  else if byte = 0x2b then .ok 62
  else if byte = 0x2f then .ok 63
  else .error .refused

/-- The pass over one symbol of a quantum. -/
def shiftSextet (bits : ℕ) (byte : UInt8) : Except Stop ℕ := do
  let shifted ← shl 32 bits 6
  let value ← sextet byte
  .ok (shifted ||| value)

/-- The pass over one quantum. -/
def decodeQuantum (last : Bool) (quantum : List UInt8) : Except Stop (List UInt8) := do
  let padding := if last then quantum.count pad else 0
  if 2 < padding then .error .refused
  else do
    let significant ← sub 4 padding
    let symbols ← slice quantum 0 significant
    let bits ← symbols.foldlM shiftSextet 0
    let shift ← mul addressMax 6 padding
    let bits ← shl 32 bits shift
    let stop ← sub 4 padding
    slice (BigEndian.toBytes 4 bits) 1 stop

/-- The loop, from the quantum with this index on. -/
def decodeQuanta (quanta index : ℕ) : List UInt8 → Except Stop (List UInt8)
  | a :: b :: c :: d :: rest => do
      let next ← add addressMax index 1
      let out ← decodeQuantum (next = quanta) [a, b, c, d]
      let outs ← decodeQuanta quanta next rest
      .ok (out ++ outs)
  | _ => .ok []

/-- `decode_base64`. No vector is longer than `isizeMax`. -/
def decodeBase64 (input : List UInt8) : Except Stop (List UInt8) :=
  if input.isEmpty ∨ input.length % 4 ≠ 0 then .error .refused
  else do
    let quanta := input.length / 4
    let _ ← mul isizeMax quanta 3
    decodeQuanta quanta 0 input

/-- A sextet is read without an overflow. -/
theorem sextet_eq (byte : UInt8) : sextet byte = refuse ((Volto.sextet byte).map UInt8.toNat) := by
  revert byte
  exact forall_byte (by decide +kernel)

/-- A sextet is shifted in without an overflow. -/
theorem shiftSextet_eq {bits : ℕ} (hbits : bits < 2 ^ 24) (byte : UInt8) :
    shiftSextet bits byte = refuse (Volto.shiftSextet bits byte) := by
  have hshl : shl 32 bits 6 = .ok (bits <<< 6) := by
    refine shl_of_lt (by norm_num) ?_
    rw [Nat.shiftLeft_eq]
    omega
  rw [shiftSextet, hshl, sextet_eq, Volto.shiftSextet]
  cases Volto.sextet byte with
  | none => rfl
  | some value => rfl

/-- One symbol is six bits more. -/
theorem shiftSextet_lt {bits bits' k : ℕ} {byte : UInt8} (hbits : bits < 64 ^ k)
    (h : Volto.shiftSextet bits byte = some bits') : bits' < 64 ^ (k + 1) := by
  obtain ⟨value, hvalue, rfl⟩ := Option.map_eq_some_iff.mp h
  have hlt := (sextet_eq_some hvalue).1
  rw [← Nat.shiftLeft_add_eq_or_of_lt (i := 6) hlt, Nat.shiftLeft_eq, Nat.pow_succ]
  omega

section

variable {symbols quantum input : List UInt8} {bits bits' k padding : ℕ}

/-- Sextets shifted in leave a number that fits them. -/
theorem foldlM_lt (hbits : bits < 64 ^ k)
    (h : symbols.foldlM Volto.shiftSextet bits = some bits') :
    bits' < 64 ^ (k + symbols.length) := by
  induction symbols generalizing bits k with
  | nil =>
      cases h
      exact hbits
  | cons byte symbols ih =>
      rw [List.foldlM_cons, Option.bind_eq_bind, Option.bind_eq_some_iff] at h
      obtain ⟨next, hnext, h⟩ := h
      have hlt := ih (shiftSextet_lt hbits hnext) h
      rwa [Nat.add_right_comm] at hlt

/-- Four symbols stay within the 24 bits of their group. -/
theorem foldlM_shiftSextet (hbits : bits < 64 ^ k) (hk : k + symbols.length ≤ 4) :
    symbols.foldlM shiftSextet bits = refuse (symbols.foldlM Volto.shiftSextet bits) := by
  induction symbols generalizing bits k with
  | nil => rfl
  | cons byte symbols ih =>
      rw [List.length_cons] at hk
      have hroom : bits < 2 ^ 24 :=
        calc bits < 64 ^ k := hbits
          _ ≤ 64 ^ 4 := Nat.pow_le_pow_right (by norm_num) (by omega)
          _ = 2 ^ 24 := by norm_num
      rw [List.foldlM_cons, List.foldlM_cons, shiftSextet_eq hroom]
      exact refuse_bind fun next hnext => ih (shiftSextet_lt hbits hnext) (by omega)

/-- **A quantum is read without a fault.** -/
theorem decodeQuantum_eq (hquantum : quantum.length = 4) (last : Bool) :
    decodeQuantum last quantum = refuse (Volto.decodeQuantum last quantum) := by
  rw [decodeQuantum, Volto.decodeQuantum]
  obtain ⟨padding, hpadding⟩ : ∃ padding, (if last then quantum.count pad else 0) = padding :=
    ⟨_, rfl⟩
  rw [hpadding]
  refine ite_refuse fun hfew => ?_
  rw [sub_of_le (by omega), Fallible.ok_bind, slice_of_le (Nat.zero_le _) (by omega),
    Fallible.ok_bind, List.drop_zero,
    foldlM_shiftSextet (k := 0) Nat.one_pos (by rw [List.length_take]; omega)]
  refine refuse_bind fun bits hbits => ?_
  have hlt := foldlM_lt (k := 0) Nat.one_pos hbits
  rw [List.length_take, hquantum, Nat.min_eq_left (Nat.sub_le _ _), Nat.zero_add] at hlt
  have hmax : 12 ≤ addressMax := by decide
  have hshl : shl 32 bits (6 * padding) = .ok (bits <<< (6 * padding)) := by
    refine shl_of_lt (by omega) ?_
    rw [Nat.shiftLeft_eq, Nat.pow_mul]
    calc bits * 64 ^ padding < 64 ^ (4 - padding) * 64 ^ padding :=
          Nat.mul_lt_mul_of_pos_right hlt (Nat.pow_pos (by norm_num))
      _ = 64 ^ 4 := by rw [← Nat.pow_add, Nat.sub_add_cancel (by omega)]
      _ < 2 ^ 32 := by norm_num
  rw [mul_of_le (by omega), Fallible.ok_bind, hshl, Fallible.ok_bind, Fallible.ok_bind,
    slice_of_le (by omega) (by rw [BigEndian.length_toBytes]; omega)]
  rfl

/-- **The loop runs without a fault**, and knows the last quantum by its index. -/
theorem decodeQuanta_eq {quanta index : ℕ} (hquanta : quanta ≤ addressMax)
    (h : input.length = 4 * (quanta - index)) :
    decodeQuanta quanta index input = refuse (Volto.decodeQuanta input) := by
  induction input using Volto.decodeQuanta.induct generalizing index with
  | case1 a b c d rest ih =>
      simp only [List.length_cons] at h
      have hrest : rest.length = 4 * (quanta - (index + 1)) := by omega
      have hlast : decide (index + 1 = quanta) = rest.isEmpty := by
        rw [Bool.eq_iff_iff, decide_eq_true_iff, List.isEmpty_iff, ← List.length_eq_zero_iff, hrest]
        omega
      rw [decodeQuanta, Volto.decodeQuanta, add_of_le (by omega), Fallible.ok_bind, hlast,
        decodeQuantum_eq rfl, ih hrest]
      exact refuse_bind fun out _ => refuse_bind fun outs _ => rfl
  | case2 input hshort =>
      rw [decodeQuanta, Volto.decodeQuanta]
      · rfl
      · exact hshort
      · exact hshort

end

/-- **The decoder runs without a fault.** -/
theorem decodeBase64_eq (token : Slice) :
    decodeBase64 token.bytes = refuse (Volto.decodeBase64 token.bytes) := by
  have hlength := token.length_le
  have hmax : isizeMax ≤ addressMax := by decide
  rw [decodeBase64, Volto.decodeBase64]
  refine ite_refuse fun hframe => ?_
  rw [not_or, not_not] at hframe
  have hquanta := Nat.mul_div_cancel' (Nat.dvd_of_mod_eq_zero hframe.2)
  simp only
  rw [mul_of_le (by omega), Fallible.ok_bind]
  exact decodeQuanta_eq (by omega) (by omega)

end Indexed

/-! ### What is accepted -/

/-- **Base64.** Every non-empty byte string is read back from its encoding. The tokens that are
accepted are those of alphabet symbols and at most two paddings at the very end, four symbols or a
multiple of it, and such a token is read as the bytes that its symbols and paddings make room for
and whose encoding it is, up to the bits of its last symbol that no byte uses. No operation on a
byte, a word, a length or a slice goes wrong. -/
theorem base64_is_exact :
    (∀ bytes, bytes ≠ [] → decodeBase64 (encodeBase64 bytes) = some bytes) ∧
    (∀ token, (∃ bytes, decodeBase64 token = some bytes) ↔ ∃ padding, Padded padding token) ∧
    (∀ token bytes, decodeBase64 token = some bytes ↔ ∃ padding, Padded padding token ∧
      bytes.length = 3 * token.length / 4 - padding ∧
      EqualUpToUnused padding (encodeBase64 bytes) token) ∧
    (∀ token : Slice, Indexed.decodeBase64 token.bytes =
      Checked.refuse (decodeBase64 token.bytes)) := by
  refine ⟨fun bytes hbytes => ?_, fun token => ?_, fun token bytes => ?_, Indexed.decodeBase64_eq⟩
  · rw [encodeBase64_eq, decodeBase64_eq_some]
    exact decodes_encode hbytes
  · constructor
    · rintro ⟨bytes, hbytes⟩
      obtain ⟨padding, hpadded, -⟩ := decodes_iff.mp (decodeBase64_eq_some.mp hbytes)
      exact ⟨padding, hpadded⟩
    · rintro ⟨padding, hpadded⟩
      obtain ⟨bytes, hbytes⟩ := hpadded.exists_decodes
      exact ⟨bytes, decodeBase64_eq_some.mpr hbytes⟩
  · rw [decodeBase64_eq_some, encodeBase64_eq, decodes_iff]

end Volto
