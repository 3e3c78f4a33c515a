import Mathlib.Tactic.IntervalCases
import Mathlib.Tactic.NormNum
import Volto.Lib.BigEndian

/-!
# QUIC Variable-Length Integers

The varint codec of `datagram.rs`, which the frame layer, the capsule layer, the HTTP
datagram and the SNI gate all read through. A varint names its own length in the two
most significant bits of its first byte, so `peekVarint` can tell a whole varint from
one that has not fully arrived, and `putVarint` writes the shortest of the four forms.

Values are natural numbers: `peekVarint` never produces one of `2 ^ 62` or more, which
is what lets every caller hold it in a `u64`. The assertion of `putVarint` on a value
that cannot be represented is modelled as `none`.

## Main results

* `peekVarint_append`: a whole varint is read the same whatever follows it.
* `peekVarint_take_eq_none`: no strict prefix of a varint reads as one.
* `peekVarint_putVarint`: what was written is read back, with its length.
* `peekVarint_eq_some_iff`, `takeVarint_eq_some_iff`: what is read is one of the forms of its value.
* `length_putVarint_le`: no form of a value is shorter than the one that is written.
-/

namespace Volto

/-- The largest value a QUIC varint can carry. -/
def varintMax : ℕ := 2 ^ 62 - 1

/-- The longest a QUIC varint can be, in bytes. -/
def varintMaxLen : ℕ := 8

/-- Encoded length of `value` as a QUIC varint. -/
def varintLen (value : ℕ) : ℕ :=
  if value ≤ 0x3f then 1
  else if value ≤ 0x3fff then 2
  else if value ≤ 0x3fff_ffff then 4
  else 8

/-- The varint for `value`, or `none` where the source's assertion fails. -/
def putVarint (value : ℕ) : Option (List UInt8) :=
  if value ≤ varintMax then
    some (match varintLen value with
      | 1 => BigEndian.toBytes 1 value
      | 2 => BigEndian.toBytes 2 (0x4000 ||| value)
      | 4 => BigEndian.toBytes 4 (0x8000_0000 ||| value)
      | _ => BigEndian.toBytes 8 (0xc000_0000_0000_0000 ||| value))
  else
    none

/-- The varint at the start of `buf` and its byte length, or `none` when `buf` does not
yet hold the whole of it. -/
def peekVarint : List UInt8 → Option (ℕ × ℕ)
  | [] => none
  | first :: rest =>
      let length := 1 <<< (first.toNat >>> 6)
      if rest.length + 1 < length then
        none
      else
        some (BigEndian.ofBytes (first.toNat &&& 0x3f) (rest.take (length - 1)), length)

/-- Reads a varint from the front of `buf`, consuming it. -/
def takeVarint (buf : List UInt8) : Option (ℕ × List UInt8) :=
  (peekVarint buf).map fun (value, length) => (value, buf.drop length)

/-! ### Reading -/

/-- The length a first byte declares. -/
def declaredLen (first : UInt8) : ℕ :=
  1 <<< (first.toNat >>> 6)

/-- The four lengths a first byte can declare. -/
theorem declaredLen_cases (first : UInt8) :
    declaredLen first = 1 ∨ declaredLen first = 2 ∨ declaredLen first = 4 ∨
      declaredLen first = 8 := by
  have hlt : first.toNat >>> 6 < 4 := by
    have := first.toNat_lt
    rw [Nat.shiftRight_eq_div_pow]
    omega
  rw [declaredLen]
  interval_cases first.toNat >>> 6 <;> simp

/-- Reading a non-empty buffer: the declared length decides, and the payload bits are
the six low bits of the first byte followed by the rest of the form. -/
theorem peekVarint_cons (first : UInt8) (rest : List UInt8) :
    peekVarint (first :: rest) =
      if rest.length + 1 < declaredLen first then none
      else some (BigEndian.ofBytes (first.toNat % 64) (rest.take (declaredLen first - 1)),
        declaredLen first) := by
  have hmask : first.toNat &&& 0x3f = first.toNat % 64 :=
    Nat.and_two_pow_sub_one_eq_mod first.toNat 6
  rw [← hmask]
  rfl

/-- There is no varint in no bytes. -/
@[simp] theorem peekVarint_nil : peekVarint [] = none := rfl

/-- What a successful read says about its buffer: the form is all there, is between one
and eight bytes long, and its value is representable. -/
theorem peekVarint_bounds {buf : List UInt8} {value length : ℕ}
    (h : peekVarint buf = some (value, length)) :
    1 ≤ length ∧ length ≤ varintMaxLen ∧ length ≤ buf.length ∧ value ≤ varintMax := by
  cases buf with
  | nil => simp at h
  | cons first rest =>
      rw [peekVarint_cons] at h
      split at h
      · cases h
      · rename_i hlong
        simp only [Option.some.injEq, Prod.mk.injEq] at h
        obtain ⟨hvalue, rfl⟩ := h
        have hshort : (rest.take (declaredLen first - 1)).length = declaredLen first - 1 := by
          rw [List.length_take]
          omega
        have hval : value < 2 ^ 62 := by
          have hlow : first.toNat % 64 < 64 := Nat.mod_lt _ (by norm_num)
          have htail := BigEndian.ofBytes_zero_lt (rest.take (declaredLen first - 1))
          rw [← hvalue, BigEndian.ofBytes_eq]
          rw [hshort] at htail ⊢
          rcases declaredLen_cases first with hl | hl | hl | hl <;>
            rw [hl] at htail ⊢ <;> norm_num at htail ⊢ <;> omega
        have hlen := declaredLen_cases first
        simp only [varintMaxLen, varintMax, List.length_cons]
        omega

/-- **A whole varint reads the same whatever follows it.** -/
theorem peekVarint_append {buf : List UInt8} {r : ℕ × ℕ} (h : peekVarint buf = some r)
    (rest : List UInt8) : peekVarint (buf ++ rest) = some r := by
  cases buf with
  | nil => simp at h
  | cons first tail =>
      rw [List.cons_append, peekVarint_cons]
      rw [peekVarint_cons] at h
      split at h
      · cases h
      · rename_i hlong
        rw [if_neg (by rw [List.length_append]; omega),
          List.take_append_of_le_length (by omega)]
        exact h

/-- A varint is at least a byte long. -/
theorem takeVarint_length {buf rest : List UInt8} {value : ℕ}
    (h : takeVarint buf = some (value, rest)) : rest.length < buf.length := by
  obtain ⟨⟨value', length⟩, hpeek, heq⟩ := Option.map_eq_some_iff.mp h
  cases heq
  have := peekVarint_bounds hpeek
  rw [List.length_drop]
  omega

/-- A whole varint is read the same whatever follows it. -/
theorem takeVarint_append {buf rest : List UInt8} {value : ℕ}
    (h : takeVarint buf = some (value, rest)) (s : List UInt8) :
    takeVarint (buf ++ s) = some (value, rest ++ s) := by
  obtain ⟨⟨value', length⟩, hpeek, heq⟩ := Option.map_eq_some_iff.mp h
  cases heq
  have hbounds := peekVarint_bounds hpeek
  rw [takeVarint, peekVarint_append hpeek, Option.map_some]
  simp only
  rw [List.drop_append_of_le_length (by omega)]

/-- **No strict prefix of a varint reads as one.** -/
theorem peekVarint_take_eq_none {buf : List UInt8} {value length : ℕ}
    (h : peekVarint buf = some (value, length)) {k : ℕ} (hk : k < length) :
    peekVarint (buf.take k) = none := by
  cases buf with
  | nil => simp at h
  | cons first rest =>
      rw [peekVarint_cons] at h
      split at h
      · cases h
      · simp only [Option.some.injEq, Prod.mk.injEq] at h
        cases k with
        | zero => rfl
        | succ k =>
            rw [List.take_succ_cons, peekVarint_cons, if_pos]
            rw [List.length_take]
            omega

/-! ### Writing -/

/-- The four forms `putVarint` writes, each with the range it serves. -/
theorem putVarint_cases {value : ℕ} {bs : List UInt8} (h : putVarint value = some bs) :
    (value < 64 ∧ bs = BigEndian.toBytes 1 value) ∨
    (value < 2 ^ 14 ∧ bs = BigEndian.toBytes 2 (0x4000 + value)) ∨
    (value < 2 ^ 30 ∧ bs = BigEndian.toBytes 4 (0x8000_0000 + value)) ∨
    (value < 2 ^ 62 ∧ bs = BigEndian.toBytes 8 (0xc000_0000_0000_0000 + value)) := by
  have htag : ∀ i t, value < 2 ^ i → (t * 2 ^ i) ||| value = t * 2 ^ i + value := by
    intro i t hlt
    rw [Nat.mul_comm, Nat.two_pow_add_eq_or_of_lt hlt]
  rw [putVarint] at h
  split at h
  · rename_i hmax
    rw [varintMax] at hmax
    rw [Option.some.injEq] at h
    by_cases h1 : value ≤ 0x3f
    · rw [varintLen, if_pos h1] at h
      exact Or.inl ⟨by omega, h.symm⟩
    by_cases h2 : value ≤ 0x3fff
    · rw [varintLen, if_neg h1, if_pos h2] at h
      have hlt : value < 2 ^ 14 := by omega
      exact Or.inr (Or.inl ⟨hlt, h.symm.trans (congrArg (BigEndian.toBytes 2) (htag 14 1 hlt))⟩)
    by_cases h3 : value ≤ 0x3fff_ffff
    · rw [varintLen, if_neg h1, if_neg h2, if_pos h3] at h
      have hlt : value < 2 ^ 30 := by omega
      exact Or.inr (Or.inr (Or.inl
        ⟨hlt, h.symm.trans (congrArg (BigEndian.toBytes 4) (htag 30 2 hlt))⟩))
    · rw [varintLen, if_neg h1, if_neg h2, if_neg h3] at h
      have hlt : value < 2 ^ 62 := by omega
      exact Or.inr (Or.inr (Or.inr
        ⟨hlt, h.symm.trans (congrArg (BigEndian.toBytes 8) (htag 62 3 hlt))⟩))
  · cases h

/-- A form of `w` bytes carrying the tag `t` in its top two bits reads back as its
value. -/
theorem peekVarint_toBytes {w t value : ℕ} (ht : t < 4) (hw : w + 1 = 1 <<< t)
    (hlt : value < 2 ^ (8 * w + 6)) (rest : List UInt8) :
    peekVarint (BigEndian.toBytes (w + 1) (t * 2 ^ (8 * w + 6) + value) ++ rest) =
      some (value, w + 1) := by
  have hpow : (2 : ℕ) ^ (8 * w + 6) = 256 ^ w * 64 := by
    rw [Nat.pow_add, Nat.pow_mul]
  have hpos : 0 < 256 ^ w := Nat.pow_pos (by norm_num)
  have hhigh : value / 256 ^ w < 64 := by
    rw [Nat.div_lt_iff_lt_mul hpos, Nat.mul_comm, ← hpow]
    exact hlt
  have hdiv64 : (t * 64 + value / 256 ^ w) / 2 ^ 6 = t := by
    generalize value / 256 ^ w = q at hhigh ⊢
    omega
  have hmod64 : (t * 64 + value / 256 ^ w) % 64 = value / 256 ^ w := by
    generalize value / 256 ^ w = q at hhigh ⊢
    omega
  have hfirst : (UInt8.ofNat ((t * 2 ^ (8 * w + 6) + value) >>> (8 * w))).toNat =
      t * 64 + value / 256 ^ w := by
    rw [UInt8.toNat_ofNat', Nat.shiftRight_eq_div_pow, Nat.pow_mul, hpow]
    have hdiv : (t * (256 ^ w * 64) + value) / 256 ^ w = t * 64 + value / 256 ^ w := by
      rw [show t * (256 ^ w * 64) + value = value + 256 ^ w * (t * 64) by ring,
        Nat.add_mul_div_left _ _ hpos, Nat.add_comm]
    rw [show (2 : ℕ) ^ 8 = 256 by rfl, hdiv]
    exact Nat.mod_eq_of_lt (by omega)
  have hdecl : declaredLen (UInt8.ofNat ((t * 2 ^ (8 * w + 6) + value) >>> (8 * w))) = w + 1 := by
    rw [declaredLen]
    rw [hfirst, Nat.shiftRight_eq_div_pow, hdiv64]
    exact hw.symm
  rw [BigEndian.toBytes, List.cons_append, peekVarint_cons, hdecl, hfirst, if_neg]
  · rw [Nat.add_sub_cancel, List.take_append_of_le_length (by simp),
      List.take_of_length_le (by simp), BigEndian.ofBytes_toBytes,
      hmod64, hpow,
      show t * (256 ^ w * 64) + value = value + 256 ^ w * (t * 64) by ring,
      Nat.add_mul_mod_self_left, Nat.mul_comm, Nat.div_add_mod]
  · rw [List.length_append, BigEndian.length_toBytes]
    omega

/-- **What was written is read back**, with its length, whatever follows it. -/
theorem peekVarint_putVarint {value : ℕ} {bs : List UInt8} (h : putVarint value = some bs)
    (rest : List UInt8) : peekVarint (bs ++ rest) = some (value, bs.length) := by
  rcases putVarint_cases h with ⟨hlt, rfl⟩ | ⟨hlt, rfl⟩ | ⟨hlt, rfl⟩ | ⟨hlt, rfl⟩ <;>
    rw [BigEndian.length_toBytes]
  · have := peekVarint_toBytes (w := 0) (t := 0) (by decide) (by decide) hlt rest
    simpa using this
  · exact peekVarint_toBytes (w := 1) (t := 1) (by decide) (by decide) hlt rest
  · exact peekVarint_toBytes (w := 3) (t := 2) (by decide) (by decide) hlt rest
  · exact peekVarint_toBytes (w := 7) (t := 3) (by decide) (by decide) hlt rest

/-- Exactly the values up to `varintMax` can be written. -/
theorem putVarint_isSome_iff (value : ℕ) : (putVarint value).isSome ↔ value ≤ varintMax := by
  rw [putVarint]
  split <;> simp_all

/-- The bytes written are as many as `varintLen` promises. -/
theorem length_putVarint {value : ℕ} {bs : List UInt8} (h : putVarint value = some bs) :
    bs.length = varintLen value := by
  rw [putVarint] at h
  split at h
  · rw [Option.some.injEq] at h
    subst h
    rw [varintLen]
    split_ifs <;> simp
  · cases h

/-! ### Varints by their forms -/

/-- A varint in one of its four forms: the top two bits are the logarithm of its length. -/
def IsVarint (value : ℕ) (bytes : List UInt8) : Prop :=
  ∃ w t, t < 4 ∧ w + 1 = 1 <<< t ∧ value < 2 ^ (8 * w + 6) ∧
    bytes = BigEndian.toBytes (w + 1) (t * 2 ^ (8 * w + 6) + value)

/-- A varint is read in any of its forms. -/
theorem IsVarint.takeVarint {value : ℕ} {bytes : List UInt8} (h : IsVarint value bytes)
    (rest : List UInt8) : takeVarint (bytes ++ rest) = some (value, rest) := by
  obtain ⟨w, t, ht, hw, hlt, rfl⟩ := h
  rw [Volto.takeVarint, peekVarint_toBytes ht hw hlt, Option.map_some]
  simp only
  rw [List.drop_left' (BigEndian.length_toBytes _ _)]

/-- A first byte and as many more as it declares are a varint. -/
theorem isVarint_cons {first : UInt8} {tail : List UInt8}
    (h : tail.length + 1 = declaredLen first) :
    IsVarint (BigEndian.ofBytes (first.toNat % 64) tail) (first :: tail) := by
  have hfirst : first.toNat < 256 := first.toNat_lt
  have hpow : 2 ^ (8 * tail.length + 6) = 64 * 256 ^ tail.length := by
    rw [Nat.pow_add, Nat.pow_mul, Nat.mul_comm]
  have htail := BigEndian.ofBytes_zero_lt tail
  have hvalue := BigEndian.ofBytes_eq (first.toNat % 64) tail
  refine ⟨tail.length, first.toNat / 64, by omega, ?_, ?_, ?_⟩
  · rw [h, declaredLen, Nat.shiftRight_eq_div_pow]
  · rw [hvalue, hpow]
    calc first.toNat % 64 * 256 ^ tail.length + BigEndian.ofBytes 0 tail
        < (first.toNat % 64 + 1) * 256 ^ tail.length := by rw [Nat.add_mul]; omega
      _ ≤ 64 * 256 ^ tail.length := Nat.mul_le_mul_right _ (by omega)
  · -- the tag and the value are the first byte and the others
    have hsplit : first.toNat / 64 * (64 * 256 ^ tail.length) +
        BigEndian.ofBytes (first.toNat % 64) tail = BigEndian.ofBytes 0 (first :: tail) := by
      rw [BigEndian.ofBytes_cons, BigEndian.ofBytes_eq (0 * 256 + first.toNat), hvalue]
      calc first.toNat / 64 * (64 * 256 ^ tail.length) +
            (first.toNat % 64 * 256 ^ tail.length + BigEndian.ofBytes 0 tail)
          = (64 * (first.toNat / 64) + first.toNat % 64) * 256 ^ tail.length +
              BigEndian.ofBytes 0 tail := by ring
        _ = (0 * 256 + first.toNat) * 256 ^ tail.length + BigEndian.ofBytes 0 tail := by
            rw [Nat.div_add_mod, Nat.zero_mul, Nat.zero_add]
    rw [hpow, hsplit]
    exact (BigEndian.toBytes_ofBytes (first :: tail)).symm

/-- **The varint at the front of a buffer** is one of the forms of its value, all of it there. -/
theorem peekVarint_eq_some_iff {buf : List UInt8} {value length : ℕ} :
    peekVarint buf = some (value, length) ↔
      ∃ form rest, buf = form ++ rest ∧ IsVarint value form ∧ form.length = length := by
  constructor
  · intro h
    obtain - | ⟨first, rest⟩ := buf
    · cases h
    rw [peekVarint_cons] at h
    split_ifs at h with hshort
    simp only [Option.some.injEq, Prod.mk.injEq] at h
    obtain ⟨rfl, rfl⟩ := h
    have hpos := declaredLen_cases first
    have hlength : (rest.take (declaredLen first - 1)).length + 1 = declaredLen first := by
      rw [List.length_take]
      omega
    refine ⟨first :: rest.take (declaredLen first - 1), rest.drop (declaredLen first - 1), ?_,
      isVarint_cons hlength, hlength⟩
    rw [List.cons_append, List.take_append_drop]
  · rintro ⟨form, rest, rfl, ⟨w, t, ht, hw, hlt, rfl⟩, rfl⟩
    rw [peekVarint_toBytes ht hw hlt, BigEndian.length_toBytes]

section

variable {value : ℕ} {buf bytes form rest : List UInt8}

/-- A whole varint leads a buffer. -/
def Leads (value : ℕ) (buf : List UInt8) : Prop :=
  ∃ form rest, buf = form ++ rest ∧ IsVarint value form

/-- A varint is taken off the front exactly if a form of it stands there. -/
theorem takeVarint_eq_some_iff :
    takeVarint buf = some (value, rest) ↔ ∃ form, buf = form ++ rest ∧ IsVarint value form := by
  rw [takeVarint, Option.map_eq_some_iff]
  constructor
  · rintro ⟨⟨value, length⟩, hpeek, heq⟩
    cases heq
    obtain ⟨form, rest, rfl, hform, rfl⟩ := peekVarint_eq_some_iff.mp hpeek
    exact ⟨form, by rw [List.drop_left], hform⟩
  · rintro ⟨form, rfl, hform⟩
    refine ⟨(value, form.length), peekVarint_eq_some_iff.mpr ⟨form, rest, rfl, hform, rfl⟩, ?_⟩
    simp only [List.drop_left]

/-- No varint is taken exactly if none leads. -/
theorem takeVarint_eq_none_iff : takeVarint buf = none ↔ ¬∃ value, Leads value buf := by
  rw [Option.eq_none_iff_forall_ne_some, not_exists]
  constructor
  · rintro h value ⟨form, rest, hbuf, hform⟩
    exact h (value, rest) (takeVarint_eq_some_iff.mpr ⟨form, hbuf, hform⟩)
  · rintro h ⟨value, rest⟩ htake
    obtain ⟨form, hbuf, hform⟩ := takeVarint_eq_some_iff.mp htake
    exact h value ⟨form, rest, hbuf, hform⟩

/-- What is written is a form of its value. -/
theorem isVarint_putVarint (h : putVarint value = some bytes) : IsVarint value bytes := by
  obtain ⟨hlt, rfl⟩ | ⟨hlt, rfl⟩ | ⟨hlt, rfl⟩ | ⟨hlt, rfl⟩ := putVarint_cases h
  · exact ⟨0, 0, by decide, rfl, hlt, by simp⟩
  · exact ⟨1, 1, by decide, rfl, hlt, rfl⟩
  · exact ⟨3, 2, by decide, rfl, hlt, rfl⟩
  · exact ⟨7, 3, by decide, rfl, hlt, rfl⟩

/-- **No form of a value is shorter than the one that is written.** -/
theorem length_putVarint_le (h : putVarint value = some bytes) (hform : IsVarint value form) :
    bytes.length ≤ form.length := by
  obtain ⟨w, t, ht, hw, hlt, rfl⟩ := hform
  rw [length_putVarint h, BigEndian.length_toBytes, varintLen]
  interval_cases t
  · obtain rfl : w = 0 := by simpa using hw
    rw [if_pos (by omega)]
  · obtain rfl : w = 1 := by simpa using hw
    split_ifs <;> omega
  · obtain rfl : w = 3 := by simpa using hw
    split_ifs <;> omega
  · obtain rfl : w = 7 := by simpa using hw
    split_ifs <;> omega

end

end Volto
