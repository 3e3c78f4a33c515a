import Mathlib.Algebra.Order.Ring.Nat
import Mathlib.Tactic.Ring
import Volto.H3.Error

/-!
# Prefixed Integers

The integer representation QPACK borrows from HPACK, as `take_int` and `put_int` of
`h3/qpack.rs` have it: the low bits of the first byte hold a small value, and a full prefix
says that the rest follows in seven-bit groups, least significant first. The bits above the
prefix are the representation's flags.

Values are natural numbers and the `u64` arithmetic of the reader is explicit: a group shifted
out of 64 bits and a sum past them are refused.

## Main results

* `takeInt_putInt`: flags and value are read back, whatever follows.
* `takeInt_length`: reading consumes at least a byte.
-/

namespace Volto

namespace Qpack

/-- A failure answered on the one stream it arrived on. -/
def streamError (detail : String) : Violation :=
  Violation.stream Code.qpackDecompressionFailed detail

/-- The section ended in the middle of a field line. -/
def truncated : Violation :=
  streamError "the field section ended mid-representation"

/-! ### Reading -/

/-- The largest value below the escape of a prefix, and the escape itself. -/
def prefixMask (prefixBits : ℕ) : ℕ :=
  2 ^ prefixBits - 1

/-- Adds one seven-bit group at `shift`, or `none` where `u64` cannot hold the result. -/
def addGroup (shift value group : ℕ) : Option ℕ :=
  if shift < 64 then
    let added := (group <<< shift) % 2 ^ 64
    if added >>> shift = group then
      if value + added < 2 ^ 64 then some (value + added) else none
    else
      none
  else
    none

/-- The loop over the continuation bytes. -/
def takeIntLoop (shift value : ℕ) : List UInt8 → Except Violation (ℕ × List UInt8)
  | [] => .error truncated
  | byte :: rest =>
      match addGroup shift value (byte.toNat &&& 0x7f) with
      | none => .error (streamError "prefixed integer overflows")
      | some value =>
          if byte.toNat &&& 0x80 = 0 then .ok (value, rest)
          else takeIntLoop (shift + 7) value rest

/-- Reads a prefixed integer: the flags above the prefix, the value, and what follows. -/
def takeInt (prefixBits : ℕ) : List UInt8 → Except Violation (ℕ × ℕ × List UInt8)
  | [] => .error truncated
  | first :: rest =>
      let flags := first.toNat >>> prefixBits
      let value := first.toNat &&& prefixMask prefixBits
      if value < prefixMask prefixBits then
        .ok (flags, value, rest)
      else
        (takeIntLoop 0 value rest).map fun (value, rest) => (flags, value, rest)

/-- Reading the continuation consumes at least a byte. -/
theorem takeIntLoop_length {shift value value' : ℕ} {buf rest : List UInt8}
    (h : takeIntLoop shift value buf = .ok (value', rest)) : rest.length < buf.length := by
  induction buf generalizing shift value with
  | nil => cases h
  | cons byte buf ih =>
      rw [takeIntLoop] at h
      split at h
      · cases h
      · split_ifs at h
        · cases h
          exact Nat.lt_succ_self _
        · exact (ih h).trans (Nat.lt_succ_self _)

/-- **Reading consumes at least a byte.** -/
theorem takeInt_length {prefixBits flags value : ℕ} {buf rest : List UInt8}
    (h : takeInt prefixBits buf = .ok (flags, value, rest)) : rest.length < buf.length := by
  cases buf with
  | nil => cases h
  | cons first buf =>
      simp only [takeInt] at h
      split_ifs at h
      · cases h
        exact Nat.lt_succ_self _
      · cases hloop : takeIntLoop 0 (first.toNat &&& prefixMask prefixBits) buf with
        | error violation =>
            rw [hloop] at h
            cases h
        | ok r =>
            rw [hloop] at h
            cases h
            exact (takeIntLoop_length hloop).trans (Nat.lt_succ_self _)

/-! ### Writing -/

/-- The continuation bytes of what is left of a value. -/
def putIntLoop (remaining : ℕ) : List UInt8 :=
  if 0x80 ≤ remaining then
    UInt8.ofNat (remaining % 256 &&& 0x7f ||| 0x80) :: putIntLoop (remaining >>> 7)
  else
    [UInt8.ofNat remaining]
termination_by remaining
decreasing_by
  rw [Nat.shiftRight_eq_div_pow]
  omega

/-- Writes a prefixed integer with `flags` in the bits above the prefix. -/
def putInt (prefixBits flags value : ℕ) : List UInt8 :=
  let flags := flags <<< prefixBits &&& 0xff
  if value < prefixMask prefixBits then
    [UInt8.ofNat (flags ||| value)]
  else
    UInt8.ofNat (flags ||| prefixMask prefixBits) :: putIntLoop (value - prefixMask prefixBits)

/-- Adding a group that fits is adding its value. -/
theorem addGroup_of_lt {shift value group : ℕ} (hshift : shift < 64)
    (h : value + group * 2 ^ shift < 2 ^ 64) :
    addGroup shift value group = some (value + group * 2 ^ shift) := by
  have hadded : (group <<< shift) % 2 ^ 64 = group * 2 ^ shift := by
    rw [Nat.shiftLeft_eq]
    exact Nat.mod_eq_of_lt (by omega)
  have hback : (group * 2 ^ shift) >>> shift = group := by
    rw [Nat.shiftRight_eq_div_pow]
    exact Nat.mul_div_cancel _ (Nat.two_pow_pos shift)
  simp only [addGroup, hadded, hback, if_pos hshift, if_pos h, if_true]

/-- A continuation byte that goes on. -/
theorem toNat_group (remaining : ℕ) :
    (UInt8.ofNat (remaining % 256 &&& 0x7f ||| 0x80)).toNat = remaining % 128 + 128 := by
  have hmask : remaining % 256 &&& 0x7f = remaining % 128 := by
    rw [show (0x7f : ℕ) = 2 ^ 7 - 1 from rfl, Nat.and_two_pow_sub_one_eq_mod]
    omega
  have hor : remaining % 128 ||| 0x80 = remaining % 128 + 128 := by
    have := Nat.two_pow_add_eq_or_of_lt (i := 7) (b := remaining % 128) (by omega) 1
    rw [Nat.or_comm, Nat.add_comm]
    exact this.symm
  rw [hmask, hor, UInt8.toNat_ofNat']
  omega

/-- The low seven bits and the top bit of a byte. -/
theorem and_seven_bits (n : ℕ) : n &&& 0x7f = n % 128 := by
  rw [show (0x7f : ℕ) = 2 ^ 7 - 1 from rfl, Nat.and_two_pow_sub_one_eq_mod]

/-- A byte below 128 has its top bit clear. -/
theorem and_top_bit_of_lt {n : ℕ} (h : n < 128) : n &&& 0x80 = 0 := by
  have : ∀ n < 128, n &&& 0x80 = 0 := by decide
  exact this n h

/-- A byte from 128 on has its top bit set. -/
theorem and_top_bit_of_ge {n : ℕ} (h : 128 ≤ n) (h' : n < 256) : n &&& 0x80 ≠ 0 := by
  have : ∀ n < 256, 128 ≤ n → n &&& 0x80 ≠ 0 := by decide +kernel
  exact this n h' h

/-- **The continuation is read back**, on top of the value read so far. -/
theorem takeIntLoop_putIntLoop {shift value remaining : ℕ} (hshift : shift < 64)
    (h : value + remaining * 2 ^ shift < 2 ^ 64) (rest : List UInt8) :
    takeIntLoop shift value (putIntLoop remaining ++ rest) =
      .ok (value + remaining * 2 ^ shift, rest) := by
  induction remaining using Nat.strong_induction_on generalizing shift value with
  | _ remaining ih =>
      rw [putIntLoop]
      split_ifs with hmore
      · have hpow : (2 : ℕ) ^ (shift + 7) = 128 * 2 ^ shift := by
          rw [Nat.pow_add, Nat.mul_comm]
        have hsplit : remaining = 128 * (remaining / 128) + remaining % 128 :=
          (Nat.div_add_mod remaining 128).symm
        -- the group and what is left of the value add up to the value
        have hsum : value + remaining % 128 * 2 ^ shift + remaining / 128 * 2 ^ (shift + 7) =
            value + remaining * 2 ^ shift := by
          rw [hpow]
          calc value + remaining % 128 * 2 ^ shift + remaining / 128 * (128 * 2 ^ shift)
              = value + (128 * (remaining / 128) + remaining % 128) * 2 ^ shift := by ring
            _ = value + remaining * 2 ^ shift := by rw [← hsplit]
        have hshift' : shift + 7 < 64 := by
          by_contra hge
          have hle : (2 : ℕ) ^ 64 ≤ 2 ^ (shift + 7) := Nat.pow_le_pow_right (by decide) (by omega)
          have : 2 ^ (shift + 7) ≤ remaining * 2 ^ shift := by
            rw [hpow]
            exact Nat.mul_le_mul_right _ hmore
          omega
        have hgroup : value + remaining % 128 * 2 ^ shift < 2 ^ 64 := by omega
        have hlow : (remaining % 128 + 128) &&& 0x7f = remaining % 128 := by
          rw [and_seven_bits]
          omega
        rw [List.cons_append, takeIntLoop, toNat_group, hlow, addGroup_of_lt hshift hgroup]
        simp only
        rw [if_neg (and_top_bit_of_ge (by omega) (by omega)), Nat.shiftRight_eq_div_pow,
          show (2 : ℕ) ^ 7 = 128 from rfl, ih (remaining / 128) (by omega) hshift' (by omega),
          hsum]
      · have hbyte : (UInt8.ofNat remaining).toNat = remaining := by
          rw [UInt8.toNat_ofNat']
          omega
        have hlow : remaining &&& 0x7f = remaining := by
          rw [and_seven_bits]
          omega
        rw [List.singleton_append, takeIntLoop, hbyte, hlow, addGroup_of_lt hshift h]
        simp only
        rw [if_pos (and_top_bit_of_lt (by omega))]

/-- The first byte of a representation: flags above the prefix, and a value in it. -/
theorem toNat_first {prefixBits flags value : ℕ} (hflags : flags * 2 ^ prefixBits < 256)
    (hbits : prefixBits ≤ 8) (hvalue : value < 2 ^ prefixBits) :
    (UInt8.ofNat (flags <<< prefixBits &&& 0xff ||| value)).toNat =
      flags * 2 ^ prefixBits + value := by
  have hmask : flags <<< prefixBits &&& 0xff = flags * 2 ^ prefixBits := by
    rw [show (0xff : ℕ) = 2 ^ 8 - 1 from rfl, Nat.and_two_pow_sub_one_eq_mod,
      Nat.shiftLeft_eq]
    exact Nat.mod_eq_of_lt hflags
  have hor : flags * 2 ^ prefixBits ||| value = flags * 2 ^ prefixBits + value := by
    rw [Nat.mul_comm, Nat.two_pow_add_eq_or_of_lt hvalue]
  have hlt : flags * 2 ^ prefixBits + value < 256 := by
    -- the flags fill whole multiples of the prefix's range, which divides 256
    obtain ⟨k, hk⟩ : 2 ^ prefixBits ∣ 256 := by
      rw [show (256 : ℕ) = 2 ^ 8 from rfl]
      exact Nat.pow_dvd_pow 2 hbits
    rw [hk] at hflags ⊢
    have hlt : flags < k := by
      rw [Nat.mul_comm] at hflags
      exact Nat.lt_of_mul_lt_mul_left hflags
    calc flags * 2 ^ prefixBits + value
        < flags * 2 ^ prefixBits + 2 ^ prefixBits := by omega
      _ = (flags + 1) * 2 ^ prefixBits := by ring
      _ ≤ k * 2 ^ prefixBits := Nat.mul_le_mul_right _ hlt
      _ = 2 ^ prefixBits * k := Nat.mul_comm _ _
  rw [hmask, hor, UInt8.toNat_ofNat']
  exact Nat.mod_eq_of_lt hlt

/-- The escape of a prefix fits into it. -/
theorem prefixMask_lt (prefixBits : ℕ) : prefixMask prefixBits < 2 ^ prefixBits := by
  have := Nat.two_pow_pos prefixBits
  rw [prefixMask]
  omega

/-- The flags of a first byte. -/
theorem first_shiftRight {prefixBits low : ℕ} (flags : ℕ) (hlow : low < 2 ^ prefixBits) :
    (flags * 2 ^ prefixBits + low) >>> prefixBits = flags := by
  rw [Nat.shiftRight_eq_div_pow, Nat.add_comm,
    Nat.add_mul_div_right _ _ (Nat.two_pow_pos prefixBits), Nat.div_eq_of_lt hlow, Nat.zero_add]

/-- The prefix of a first byte. -/
theorem first_and_prefixMask {prefixBits low : ℕ} (flags : ℕ) (hlow : low < 2 ^ prefixBits) :
    (flags * 2 ^ prefixBits + low) &&& prefixMask prefixBits = low := by
  rw [prefixMask, Nat.and_two_pow_sub_one_eq_mod, Nat.add_comm, Nat.add_mul_mod_self_right]
  exact Nat.mod_eq_of_lt hlow

/-- **What was written is read back**: the flags, the value, and whatever follows. -/
theorem takeInt_putInt {prefixBits flags value : ℕ} (hflags : flags * 2 ^ prefixBits < 256)
    (hbits : prefixBits ≤ 8) (hvalue : value < 2 ^ 64) (rest : List UInt8) :
    takeInt prefixBits (putInt prefixBits flags value ++ rest) = .ok (flags, value, rest) := by
  have hmask := prefixMask_lt prefixBits
  unfold putInt
  simp only
  split_ifs with hsmall
  · rw [List.singleton_append, takeInt, toNat_first hflags hbits (hsmall.trans hmask)]
    simp only [first_shiftRight flags (hsmall.trans hmask),
      first_and_prefixMask flags (hsmall.trans hmask), if_pos hsmall]
  · have hadd : prefixMask prefixBits + (value - prefixMask prefixBits) * 2 ^ 0 = value := by
      omega
    rw [List.cons_append, takeInt, toNat_first hflags hbits hmask]
    simp only [first_shiftRight flags hmask, first_and_prefixMask flags hmask, lt_irrefl, if_false]
    rw [takeIntLoop_putIntLoop (by decide) (by omega), hadd]
    rfl

/-- The first byte of a representation carries the flags. -/
theorem putInt_cons (prefixBits flags : ℕ) (hflags : flags * 2 ^ prefixBits < 256)
    (hbits : prefixBits ≤ 8) (value : ℕ) :
    ∃ first tail, putInt prefixBits flags value = first :: tail ∧
      first.toNat >>> prefixBits = flags := by
  have hmask := prefixMask_lt prefixBits
  unfold putInt
  simp only
  split_ifs with hsmall
  · refine ⟨_, _, rfl, ?_⟩
    rw [toNat_first hflags hbits (hsmall.trans hmask),
      first_shiftRight flags (hsmall.trans hmask)]
  · refine ⟨_, _, rfl, ?_⟩
    rw [toNat_first hflags hbits hmask, first_shiftRight flags hmask]

end Qpack

end Volto
