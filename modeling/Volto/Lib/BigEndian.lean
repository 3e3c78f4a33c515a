import Mathlib.Algebra.Order.Ring.Nat
import Mathlib.Tactic.Ring

/-!
# Big-Endian Byte Strings

The positional reading of a byte string, most significant byte first. `ofBytes acc bs`
shifts the bytes of `bs` into an accumulator one after the other, which is how
incremental parsers read a fixed-width number; `toBytes w n` writes the low `w` bytes of
`n`.

## Main results

* `ofBytes_eq`: the shift-and-or loop is the positional value of the string.
* `ofBytes_toBytes`: reading back `toBytes w n` gives `n` modulo `256 ^ w`.
* `toBytes_ofBytes`: every string is the writing of its own value.
-/

namespace BigEndian

/-- Shift the bytes of `bs` into `acc`, most significant first. -/
def ofBytes (acc : ℕ) (bs : List UInt8) : ℕ :=
  bs.foldl (fun value byte => (value <<< 8) ||| byte.toNat) acc

/-- The low `w` bytes of `n`, most significant first. -/
def toBytes : ℕ → ℕ → List UInt8
  | 0, _ => []
  | w + 1, n => UInt8.ofNat (n >>> (8 * w)) :: toBytes w n

/-- One round of the loop is multiplication by the base. -/
theorem shift_or_eq (value : ℕ) (byte : UInt8) :
    (value <<< 8) ||| byte.toNat = value * 256 + byte.toNat := by
  have hlt : byte.toNat < 2 ^ 8 := byte.toNat_lt
  rw [← Nat.shiftLeft_add_eq_or_of_lt hlt, Nat.shiftLeft_eq]

/-- No bytes leave the number. -/
@[simp] theorem ofBytes_nil (acc : ℕ) : ofBytes acc [] = acc := rfl

/-- A byte is taken in behind those before it. -/
@[simp] theorem ofBytes_cons (acc : ℕ) (byte : UInt8) (bs : List UInt8) :
    ofBytes acc (byte :: bs) = ofBytes (acc * 256 + byte.toNat) bs := by
  rw [← shift_or_eq]
  rfl

/-- The loop over a string is the accumulator shifted past it plus the string's own
value. -/
theorem ofBytes_eq (acc : ℕ) (bs : List UInt8) :
    ofBytes acc bs = acc * 256 ^ bs.length + ofBytes 0 bs := by
  induction bs generalizing acc with
  | nil => simp
  | cons byte bs ih =>
      rw [ofBytes_cons, ofBytes_cons, ih, ih (0 * 256 + byte.toNat), List.length_cons]
      ring

/-- A string's value is below the base to its length. -/
theorem ofBytes_zero_lt (bs : List UInt8) : ofBytes 0 bs < 256 ^ bs.length := by
  induction bs with
  | nil => simp
  | cons byte bs ih =>
      rw [ofBytes_cons, ofBytes_eq, List.length_cons, Nat.pow_succ]
      have hlt : byte.toNat < 256 := byte.toNat_lt
      calc (0 * 256 + byte.toNat) * 256 ^ bs.length + ofBytes 0 bs
          < (0 * 256 + byte.toNat) * 256 ^ bs.length + 256 ^ bs.length := by omega
        _ = (byte.toNat + 1) * 256 ^ bs.length := by ring
        _ ≤ 256 * 256 ^ bs.length := Nat.mul_le_mul_right _ hlt
        _ = 256 ^ bs.length * 256 := by ring

/-- A number is written in the width asked for. -/
@[simp] theorem length_toBytes (w n : ℕ) : (toBytes w n).length = w := by
  induction w with
  | zero => rfl
  | succ w ih => rw [toBytes, List.length_cons, ih]

/-- **Reading back a written number** gives it modulo the width. -/
theorem ofBytes_toBytes (acc w n : ℕ) :
    ofBytes acc (toBytes w n) = acc * 256 ^ w + n % 256 ^ w := by
  induction w generalizing acc with
  | zero => simp [toBytes, Nat.mod_one]
  | succ w ih =>
      rw [toBytes, ofBytes_cons, ih]
      have hbyte : (UInt8.ofNat (n >>> (8 * w))).toNat = n / 256 ^ w % 256 := by
        rw [UInt8.toNat_ofNat', Nat.shiftRight_eq_div_pow, Nat.pow_mul]
      have hsplit : n % 256 ^ (w + 1) = n / 256 ^ w % 256 * 256 ^ w + n % 256 ^ w := by
        rw [Nat.pow_succ, Nat.mod_mul, Nat.mul_comm (256 ^ w) (n / 256 ^ w % 256), Nat.add_comm]
      rw [hbyte, hsplit]
      ring

/-- Two strings of one length and one value are equal. -/
theorem ofBytes_injective {bs cs : List UInt8} (hlen : bs.length = cs.length)
    (h : ofBytes 0 bs = ofBytes 0 cs) : bs = cs := by
  induction bs generalizing cs with
  | nil =>
      rw [List.length_nil] at hlen
      exact (List.length_eq_zero_iff.mp hlen.symm).symm
  | cons byte bs ih =>
      cases cs with
      | nil => simp at hlen
      | cons byte' cs =>
          have hl : bs.length = cs.length := by simpa using hlen
          rw [ofBytes_cons, ofBytes_cons, ofBytes_eq, ofBytes_eq (0 * 256 + byte'.toNat),
            hl] at h
          have hb := ofBytes_zero_lt bs
          have hc := ofBytes_zero_lt cs
          rw [hl] at hb
          have hdiv := congrArg (· / 256 ^ cs.length) h
          have hpos : 0 < 256 ^ cs.length := Nat.pow_pos (by norm_num)
          simp only [Nat.mul_comm _ (256 ^ cs.length), Nat.mul_add_div hpos,
            Nat.div_eq_of_lt hb, Nat.div_eq_of_lt hc] at hdiv
          have hbyte : byte = byte' := UInt8.toNat_inj.mp (by omega)
          subst hbyte
          rw [ih hl (by omega)]

/-- **Writing a string's own value** gives the string back. -/
theorem toBytes_ofBytes (bs : List UInt8) : toBytes bs.length (ofBytes 0 bs) = bs := by
  refine ofBytes_injective (length_toBytes _ _) ?_
  rw [ofBytes_toBytes, Nat.mod_eq_of_lt (ofBytes_zero_lt bs)]
  simp

end BigEndian
