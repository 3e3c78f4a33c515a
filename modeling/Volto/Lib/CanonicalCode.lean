import Mathlib.Algebra.Order.Ring.Nat
import Mathlib.Data.List.Basic
import Mathlib.Data.List.Induction
import Mathlib.Tactic.Ring

/-!
# Canonical Prefix Codes

A canonical code is told by how many words it has of each length: the words of a length are
consecutive numbers, and they start where the words of the length before end, one bit further on.
A string of bits is then either a word, or *open*, a beginning of longer words, or neither; and the
one number where the words of its length end decides which.

A code is complete when no string of its longest length is open. Reading it bit by bit then never
leaves the words: what has been read since the last word is open, and one more bit makes it a word
or leaves it open.

## Main results

* `open_concat`: one bit more makes an open string a word or leaves it open.
* `Word.open_take`, `Open.take`: every beginning of a word, or of an open string, is open.
* `Open.length_lt`: an open string is shorter than the longest word.
* `exists_words`: every string of bits is words and an open string.
-/

namespace CanonicalCode

/-! ### Strings of bits -/

/-- A string of bits. -/
def Bits (l : List ℕ) : Prop :=
  ∀ bit ∈ l, bit < 2

/-- The number that bits spell, the highest first. -/
def value (l : List ℕ) : ℕ :=
  l.foldl (fun n bit => 2 * n + bit) 0

/-- The low `n` bits of a number, the highest first. -/
def toBits : ℕ → ℕ → List ℕ
  | 0, _ => []
  | n + 1, v => toBits n (v / 2) ++ [v % 2]

variable {l l' : List ℕ} {bit n v : ℕ}

/-- The empty word is a word of bits. -/
theorem bits_nil : Bits [] :=
  fun _ h => absurd h List.not_mem_nil

/-- A word is one of bits exactly if both its parts are. -/
theorem bits_append : Bits (l ++ l') ↔ Bits l ∧ Bits l' :=
  List.forall_mem_append

/-- A word is one of bits exactly if its last digit and the rest are. -/
theorem bits_concat : Bits (l ++ [bit]) ↔ Bits l ∧ bit < 2 := by
  rw [bits_append, Bits, Bits, List.forall_mem_singleton]

/-- The empty word has value zero. -/
@[simp] theorem value_nil : value [] = 0 := rfl

/-- A further bit doubles the value and adds itself. -/
@[simp] theorem value_concat (l : List ℕ) (bit : ℕ) : value (l ++ [bit]) = 2 * value l + bit := by
  rw [value, List.foldl_append, List.foldl_cons, List.foldl_nil]
  rfl

/-- A word of `n` bits has a value below `2 ^ n`. -/
theorem value_lt (h : Bits l) : value l < 2 ^ l.length := by
  induction l using List.reverseRecOn with
  | nil => exact Nat.one_pos
  | append_singleton l bit ih =>
      obtain ⟨hl, hbit⟩ := bits_concat.mp h
      have hlt := ih hl
      rw [value_concat, List.length_append, List.length_singleton, Nat.pow_succ]
      omega

/-- Strings of one length are told apart by their numbers. -/
theorem eq_of_value_eq (h : Bits l) (h' : Bits l') (hlength : l.length = l'.length)
    (hvalue : value l = value l') : l = l' := by
  induction l using List.reverseRecOn generalizing l' with
  | nil => exact (List.length_eq_zero_iff.mp hlength.symm).symm
  | append_singleton l bit ih =>
      obtain rfl | ⟨l', bit', rfl⟩ := l'.eq_nil_or_concat'
      · exact absurd hlength (by simp)
      obtain ⟨hl, hbit⟩ := bits_concat.mp h
      obtain ⟨hl', hbit'⟩ := bits_concat.mp h'
      simp only [List.length_append, List.length_singleton, Nat.add_right_cancel_iff] at hlength
      rw [value_concat, value_concat] at hvalue
      obtain rfl : bit = bit' := by omega
      rw [ih hl hl' hlength (by omega)]

/-- `toBits n v` has `n` bits. -/
@[simp] theorem length_toBits (n v : ℕ) : (toBits n v).length = n := by
  induction n generalizing v with
  | zero => rfl
  | succ n ih => rw [toBits, List.length_append, ih, List.length_singleton]

/-- `toBits` gives bits. -/
theorem bits_toBits (n v : ℕ) : Bits (toBits n v) := by
  induction n generalizing v with
  | zero => exact bits_nil
  | succ n ih => exact bits_concat.mpr ⟨ih _, Nat.mod_lt _ Nat.two_pos⟩

/-- A number that fits is read back from its bits. -/
theorem value_toBits (h : v < 2 ^ n) : value (toBits n v) = v := by
  induction n generalizing v with
  | zero =>
      rw [Nat.pow_zero, Nat.lt_one_iff] at h
      rw [h]
      rfl
  | succ n ih =>
      rw [Nat.pow_succ] at h
      rw [toBits, value_concat, ih (by omega)]
      omega

/-- A string of ones. -/
def ones (n : ℕ) : List ℕ :=
  List.replicate n 1

/-- `ones` gives bits. -/
theorem bits_ones (n : ℕ) : Bits (ones n) := by
  intro bit hbit
  rw [List.eq_of_mem_replicate hbit]
  exact Nat.one_lt_two

/-- `n` ones are `2 ^ n - 1`. -/
theorem value_ones (n : ℕ) : value (ones n) = 2 ^ n - 1 := by
  induction n with
  | zero => rfl
  | succ n ih =>
      have hpos : 0 < 2 ^ n := Nat.two_pow_pos n
      rw [ones, List.replicate_succ', value_concat, ← ones, ih, Nat.pow_succ]
      omega

/-- Only ones spell the largest number. -/
theorem eq_ones_iff (h : Bits l) : l = ones l.length ↔ value l = 2 ^ l.length - 1 := by
  constructor
  · intro heq
    conv_lhs => rw [heq]
    exact value_ones _
  · intro hvalue
    exact eq_of_value_eq h (bits_ones _) (by simp [ones]) (hvalue.trans (value_ones _).symm)

/-! ### Octets -/

/-- Eight bits to an octet. -/
def pack : List ℕ → List UInt8
  | b₇ :: b₆ :: b₅ :: b₄ :: b₃ :: b₂ :: b₁ :: b₀ :: rest =>
      UInt8.ofNat (value [b₇, b₆, b₅, b₄, b₃, b₂, b₁, b₀]) :: pack rest
  | _ => []

/-- The bits of octets. -/
def unpack (octets : List UInt8) : List ℕ :=
  octets.flatMap fun octet => toBits 8 octet.toNat

/-- Octets unpack to bits. -/
theorem bits_unpack (octets : List UInt8) : Bits (unpack octets) := by
  intro bit hbit
  obtain ⟨octet, -, hmem⟩ := List.mem_flatMap.mp hbit
  exact bits_toBits 8 octet.toNat bit hmem

/-- An octet unpacks to eight bits. -/
theorem length_unpack (octets : List UInt8) : (unpack octets).length = 8 * octets.length := by
  induction octets with
  | nil => rfl
  | cons octet octets ih =>
      rw [unpack, List.flatMap_cons, List.length_append, length_toBits, ← unpack, ih,
        List.length_cons]
      ring

/-- Eight bits are an octet, and the octet has those bits. -/
theorem pack_append (hl : Bits l) (hlength : l.length = 8) (rest : List ℕ) :
    pack (l ++ rest) = UInt8.ofNat (value l) :: pack rest := by
  obtain ⟨b₇, b₆, b₅, b₄, b₃, b₂, b₁, b₀, rfl⟩ : ∃ b₇ b₆ b₅ b₄ b₃ b₂ b₁ b₀,
      l = [b₇, b₆, b₅, b₄, b₃, b₂, b₁, b₀] := by
    match l, hlength with
    | [b₇, b₆, b₅, b₄, b₃, b₂, b₁, b₀], _ => exact ⟨b₇, b₆, b₅, b₄, b₃, b₂, b₁, b₀, rfl⟩
  rfl

/-- **Round trip**: unpacked octets pack to themselves. -/
theorem pack_unpack (octets : List UInt8) : pack (unpack octets) = octets := by
  induction octets with
  | nil => rfl
  | cons octet octets ih =>
      have hlt : octet.toNat < 2 ^ 8 := octet.toNat_lt
      rw [unpack, List.flatMap_cons, pack_append (bits_toBits 8 _) (length_toBits 8 _),
        value_toBits hlt, UInt8.ofNat_toNat, ← unpack, ih]

/-- **Round trip**: whole octets of bits, packed, unpack to themselves. -/
theorem unpack_pack (hl : Bits l) (hlength : 8 ∣ l.length) : unpack (pack l) = l := by
  obtain ⟨k, hk⟩ := hlength
  induction k generalizing l with
  | zero =>
      rw [List.length_eq_zero_iff.mp (hk.trans (Nat.mul_zero 8))]
      rfl
  | succ k ih =>
      obtain ⟨hhead, htail⟩ := bits_append.mp (List.take_append_drop 8 l ▸ hl)
      have htake : (l.take 8).length = 8 := by
        rw [List.length_take]
        omega
      have hdrop : (l.drop 8).length = 8 * k := by
        rw [List.length_drop]
        omega
      have hlt := value_lt hhead
      rw [htake] at hlt
      have hvalue : (UInt8.ofNat (value (l.take 8))).toNat = value (l.take 8) := by
        rw [UInt8.toNat_ofNat', Nat.mod_eq_of_lt hlt]
      have hbits : toBits 8 (value (l.take 8)) = l.take 8 :=
        eq_of_value_eq (bits_toBits 8 _) hhead (by rw [length_toBits, htake]) (value_toBits hlt)
      conv_lhs => rw [← List.take_append_drop 8 l]
      rw [pack_append hhead htake, unpack, List.flatMap_cons, hvalue, hbits, ← unpack,
        ih htail hdrop, List.take_append_drop]

/-! ### Codes -/

/-- A complete canonical code: where the words of each length start, and how many there are. -/
structure Code where
  maxBits : ℕ
  first : ℕ → ℕ
  count : ℕ → ℕ
  first_zero : first 0 = 0
  count_zero : count 0 = 0
  first_succ : ∀ n < maxBits, first (n + 1) = 2 * (first n + count n)
  complete : first maxBits + count maxBits = 2 ^ maxBits
  last : 0 < count maxBits

namespace Code

variable (C : Code)

/-- Where the words of a length end. -/
def limit (n : ℕ) : ℕ :=
  C.first n + C.count n

/-- A word of the code. -/
structure Word (l : List ℕ) : Prop where
  bits : Bits l
  length_le : l.length ≤ C.maxBits
  first_le : C.first l.length ≤ value l
  lt_limit : value l < C.limit l.length

/-- A beginning of longer words. -/
structure Open (l : List ℕ) : Prop where
  bits : Bits l
  length_le : l.length ≤ C.maxBits
  limit_le : C.limit l.length ≤ value l

variable {C}

/-- An open word is not yet a code word. -/
theorem Open.not_word (h : C.Open l) : ¬C.Word l := fun hword =>
  absurd hword.lt_limit (Nat.not_lt.mpr h.limit_le)

/-- The empty word is open. -/
theorem open_nil : C.Open [] := by
  refine ⟨bits_nil, Nat.zero_le _, ?_⟩
  rw [List.length_nil, limit, C.first_zero, C.count_zero]
  exact Nat.zero_le _

/-- No code word is empty. -/
theorem Word.ne_nil (h : C.Word l) : l ≠ [] := by
  rintro rfl
  exact open_nil.not_word h

/-- **An open string is shorter than the longest word**, as the code is complete. -/
theorem Open.length_lt (h : C.Open l) : l.length < C.maxBits := by
  refine Nat.lt_of_le_of_ne h.length_le fun heq => ?_
  have hlimit := h.limit_le
  have hlt := value_lt h.bits
  rw [limit, heq, C.complete, ← heq] at hlimit
  omega

/-- No number is passed over between an open string and the words that are one bit longer. -/
theorem Open.first_le (h : C.Open l) : C.first (l ++ [bit]).length ≤ value (l ++ [bit]) := by
  have hlimit := h.limit_le
  rw [limit] at hlimit
  rw [List.length_append, List.length_singleton, C.first_succ _ h.length_lt, value_concat]
  omega

/-- **One bit more** makes an open string a word, or leaves it open. -/
theorem open_concat (h : C.Open l) (hbit : bit < 2) :
    C.Word (l ++ [bit]) ∨ C.Open (l ++ [bit]) := by
  have hbits := bits_concat.mpr ⟨h.bits, hbit⟩
  have hlength : (l ++ [bit]).length ≤ C.maxBits := by
    rw [List.length_append, List.length_singleton]
    exact h.length_lt
  obtain hlt | hle := Nat.lt_or_ge (value (l ++ [bit])) (C.limit (l ++ [bit]).length)
  · exact .inl ⟨hbits, hlength, h.first_le, hlt⟩
  · exact .inr ⟨hbits, hlength, hle⟩

/-- What comes before the last bit of a string is open when the string is past the words before. -/
theorem open_of_concat (hbits : Bits (l ++ [bit])) (hlength : (l ++ [bit]).length ≤ C.maxBits)
    (hfirst : C.first (l ++ [bit]).length ≤ value (l ++ [bit])) : C.Open l := by
  obtain ⟨hl, hbit⟩ := bits_concat.mp hbits
  rw [List.length_append, List.length_singleton] at hlength hfirst
  rw [C.first_succ _ hlength, value_concat] at hfirst
  refine ⟨hl, Nat.le_of_succ_le hlength, ?_⟩
  rw [limit]
  omega

/-- **What is read before a word is open.** -/
theorem Word.open_dropLast (h : C.Word (l ++ [bit])) : C.Open l :=
  open_of_concat h.bits h.length_le h.first_le

/-- An open word stays open without its last bit. -/
theorem Open.dropLast (h : C.Open (l ++ [bit])) : C.Open l :=
  open_of_concat h.bits h.length_le ((Nat.le_add_right _ _).trans h.limit_le)

/-- Every prefix of an open word is open. -/
theorem Open.take (h : C.Open l) (n : ℕ) : C.Open (l.take n) := by
  induction l using List.reverseRecOn with
  | nil =>
      rw [List.take_nil]
      exact h
  | append_singleton l bit ih =>
      obtain hlt | hle := Nat.lt_or_ge l.length n
      · rwa [List.take_of_length_le (by rwa [List.length_append, List.length_singleton])]
      · rw [List.take_append_of_le_length hle]
        exact ih h.dropLast

/-- Every beginning of a word is open. -/
theorem Word.open_take (h : C.Word l) (hn : n < l.length) : C.Open (l.take n) := by
  obtain rfl | ⟨l, bit, rfl⟩ := l.eq_nil_or_concat'
  · exact absurd hn (Nat.not_lt_zero _)
  · rw [List.length_append, List.length_singleton] at hn
    rw [List.take_append_of_le_length (Nat.le_of_lt_succ hn)]
    exact h.open_dropLast.take n

/-- Below the longest length, some strings are not words yet. -/
theorem limit_lt (hn : n < C.maxBits) : C.limit n < 2 ^ n := by
  obtain ⟨k, hk⟩ := Nat.exists_eq_add_of_lt hn
  induction k generalizing n with
  | zero =>
      have hcomplete := C.complete
      have hlast := C.last
      have hsucc := C.first_succ n hn
      rw [show C.maxBits = n + 1 by omega, Nat.pow_succ] at hcomplete
      rw [show C.maxBits = n + 1 by omega] at hlast
      rw [limit]
      omega
  | succ k ih =>
      have hnext := ih (n := n + 1) (by omega) (by omega)
      have hsucc := C.first_succ n hn
      rw [limit, hsucc, Nat.pow_succ] at hnext
      rw [limit]
      omega

/-- The limit of a length is at most all the words of that length. -/
theorem limit_le (hn : n ≤ C.maxBits) : C.limit n ≤ 2 ^ n := by
  obtain hlt | rfl := Nat.lt_or_eq_of_le hn
  · exact (C.limit_lt hlt).le
  · exact C.complete.le

/-- Ones are open, up to the longest length. -/
theorem open_ones (hn : n < C.maxBits) : C.Open (ones n) := by
  have hlength : (ones n).length = n := List.length_replicate
  have hlt := C.limit_lt hn
  refine ⟨bits_ones n, ?_, ?_⟩
  · rw [hlength]
    exact hn.le
  · rw [hlength, value_ones]
    omega

variable (C) in
/-- **Every string of bits is words and an open string.** -/
theorem exists_words (hl : Bits l) :
    ∃ words rest, l = List.flatten words ++ rest ∧ (∀ word ∈ words, C.Word word) ∧ C.Open rest := by
  induction l using List.reverseRecOn with
  | nil => exact ⟨[], [], rfl, fun _ h => absurd h List.not_mem_nil, open_nil⟩
  | append_singleton l bit ih =>
      obtain ⟨hl, hbit⟩ := bits_concat.mp hl
      obtain ⟨words, rest, rfl, hwords, hrest⟩ := ih hl
      obtain hword | hopen := open_concat hrest hbit
      · refine ⟨words ++ [rest ++ [bit]], [], ?_, ?_, open_nil⟩
        · rw [List.flatten_append, List.flatten_singleton, List.append_nil, List.append_assoc]
        · exact List.forall_mem_append.mpr ⟨hwords, List.forall_mem_singleton.mpr hword⟩
      · exact ⟨words, rest ++ [bit], List.append_assoc .., hwords, hopen⟩

end Code

end CanonicalCode
