import Mathlib.Data.Nat.Notation

/-!
# Address Prefixes

Blocks of addresses as prefixes, over addresses of any number of octets: an address lies in
`base/length` when its first `length` bits are those of `base`.

## Main results

* `within_cons`, `within_of_lt`: a prefix is whole octets, and then a masked one.
* `segment_and`, `segment_inj`: a test of 16-bit segments is one of their octets.
-/

namespace Prefixes

/-- The bits of an octet, the highest first. -/
def octetBits (o : UInt8) : List Bool :=
  List.ofFn fun i : Fin 8 => o.toBitVec.getMsbD i

/-- The bits of an address. -/
def bits (octets : List UInt8) : List Bool :=
  octets.flatMap octetBits

/-- A block of addresses. -/
structure Prefix where
  base : List UInt8
  length : ℕ
deriving DecidableEq, Repr

/-- The address lies in the block. -/
def Within (p : Prefix) (octets : List UInt8) : Prop :=
  (bits octets).take p.length = (bits p.base).take p.length

/-- Whether some octets lie within a prefix is decided by computing their bits. -/
instance (p : Prefix) (octets : List UInt8) : Decidable (Within p octets) :=
  inferInstanceAs (Decidable (_ = _))

/-- An octet whose first bits are set. -/
def mask (length : ℕ) : UInt8 :=
  ⟨BitVec.allOnes 8 <<< (8 - length)⟩

variable {o b : UInt8} {os bs : List UInt8} {n : ℕ}

/-- An octet has eight bits. -/
@[simp] theorem length_octetBits (o : UInt8) : (octetBits o).length = 8 :=
  List.length_ofFn

/-- The bits of an octet, the most significant first. -/
theorem getElem_octetBits (o : UInt8) {i : ℕ} (h : i < (octetBits o).length) :
    (octetBits o)[i] = o.toBitVec.getMsbD i :=
  List.getElem_ofFn h

/-- The first bits of two octets agree. -/
theorem take_octetBits_eq_iff (h : n ≤ 8) :
    (octetBits o).take n = (octetBits b).take n ↔
      ∀ i < n, o.toBitVec.getMsbD i = b.toBitVec.getMsbD i := by
  constructor
  · intro heq i hi
    have hbit : ((octetBits o).take n)[i]? = ((octetBits b).take n)[i]? := by rw [heq]
    rw [List.getElem?_take_of_lt hi, List.getElem?_take_of_lt hi,
      List.getElem?_eq_getElem (by simpa using by omega),
      List.getElem?_eq_getElem (by simpa using by omega), getElem_octetBits,
      getElem_octetBits] at hbit
    exact Option.some.inj hbit
  · intro hbits
    refine List.ext_getElem (by simp) fun i hi hi' => ?_
    rw [List.getElem_take, List.getElem_take, getElem_octetBits, getElem_octetBits]
    exact hbits i (by simp at hi; omega)

/-- The mask of `n` bits keeps the first `n` bits. -/
theorem getMsbD_and_mask (o : UInt8) (h : n ≤ 8) (i : ℕ) :
    (o &&& mask n).toBitVec.getMsbD i = (o.toBitVec.getMsbD i && decide (i < n)) := by
  have hmask : (BitVec.allOnes 8 <<< (8 - n)).getMsbD i = decide (i < n) := by
    rw [BitVec.getMsbD_shiftLeft, BitVec.getMsbD_allOnes]
    exact decide_eq_decide.mpr (by omega)
  rw [UInt8.toBitVec_and, BitVec.getMsbD_and, mask, hmask]

/-- To compare the first bits of two octets is to compare what the mask leaves of them. -/
theorem take_octetBits_eq_iff_mask (h : n ≤ 8) :
    (octetBits o).take n = (octetBits b).take n ↔ o &&& mask n = b &&& mask n := by
  rw [take_octetBits_eq_iff h]
  constructor
  · intro hbits
    refine UInt8.toBitVec_inj.mp (BitVec.eq_of_getMsbD_eq fun i _ => ?_)
    rw [getMsbD_and_mask o h, getMsbD_and_mask b h]
    by_cases hn : i < n
    · rw [hbits i hn]
    · simp [hn]
  · intro heq i hi
    have hbit : (o &&& mask n).toBitVec.getMsbD i = (b &&& mask n).toBitVec.getMsbD i := by
      rw [heq]
    rw [getMsbD_and_mask o h, getMsbD_and_mask b h] at hbit
    simpa [hi] using hbit

/-- Two octets have the same bits only if they are the same. -/
theorem octetBits_inj : octetBits o = octetBits b ↔ o = b := by
  have hmask (a : UInt8) : a &&& mask 8 = a := by
    rw [show mask 8 = 255 from rfl]
    exact UInt8.and_neg_one
  have h := take_octetBits_eq_iff_mask (o := o) (b := b) (Nat.le_refl 8)
  rwa [hmask, hmask, List.take_of_length_le (by simp), List.take_of_length_le (by simp)] at h

/-- Everything lies within the empty prefix. -/
@[simp] theorem within_zero (bs os : List UInt8) : Within ⟨bs, 0⟩ os :=
  rfl

/-- **A whole octet of a prefix.** -/
@[simp] theorem within_cons (h : 8 ≤ n) :
    Within ⟨b :: bs, n⟩ (o :: os) ↔ o = b ∧ Within ⟨bs, n - 8⟩ os := by
  obtain ⟨n, rfl⟩ := Nat.exists_eq_add_of_le h
  have htake (a : UInt8) (as : List UInt8) :
      (bits (a :: as)).take (8 + n) = octetBits a ++ (bits as).take n := by
    rw [bits, List.flatMap_cons, List.take_append, length_octetBits, Nat.add_sub_cancel_left,
      List.take_of_length_le (by simp)]
    rfl
  rw [Within, htake, htake, Nat.add_sub_cancel_left]
  constructor
  · intro heq
    obtain ⟨hfirst, hrest⟩ := List.append_inj heq (by simp)
    exact ⟨octetBits_inj.mp hfirst, hrest⟩
  · rintro ⟨rfl, hrest⟩
    exact congrArg (octetBits o ++ ·) hrest

/-- **The octet that a prefix ends in.** -/
@[simp] theorem within_of_lt (h : n < 8) :
    Within ⟨b :: bs, n⟩ (o :: os) ↔ o &&& mask n = b &&& mask n := by
  have htake (a : UInt8) (as : List UInt8) : (bits (a :: as)).take n = (octetBits a).take n := by
    rw [bits, List.flatMap_cons, List.take_append_of_le_length (by simpa using Nat.le_of_lt h)]
  rw [Within, htake, htake, take_octetBits_eq_iff_mask (Nat.le_of_lt h)]

/-! ### Segments -/

/-- Two octets as a 16-bit number, the high one first. -/
def segment (high low : UInt8) : UInt16 :=
  ⟨high.toBitVec ++ low.toBitVec⟩

/-- Two segments are the same only if both their octets are. -/
@[simp] theorem segment_inj {high low high' low' : UInt8} :
    segment high low = segment high' low' ↔ high = high' ∧ low = low' := by
  constructor
  · intro h
    have hbits := congrArg UInt16.toBitVec h
    have hhigh := congrArg (BitVec.extractLsb' 8 8) hbits
    have hlow := congrArg (BitVec.extractLsb' 0 8) hbits
    simp only [segment, BitVec.extractLsb'_append_eq_left, BitVec.extractLsb'_append_eq_right]
      at hhigh hlow
    exact ⟨UInt8.toBitVec_inj.mp hhigh, UInt8.toBitVec_inj.mp hlow⟩
  · rintro ⟨rfl, rfl⟩
    rfl

/-- A mask on a segment is one on each of its octets. -/
@[simp] theorem segment_and (high low high' low' : UInt8) :
    segment high low &&& segment high' low' = segment (high &&& high') (low &&& low') :=
  UInt16.toBitVec_inj.mp BitVec.and_append

end Prefixes
