import Mathlib.Data.List.GetD
import Mathlib.Data.List.Induction
import Mathlib.Data.List.Nodup
import Mathlib.Tactic.NormNum
import Volto.Lib.BigEndian

/-!
# Base64

Standard base64 as a change of base: the symbols of a token are the digits of one number in base
64, and its bytes are the digits of the same number in base 256, cut to whole bytes. A token is
padded to a multiple of four symbols.

## Main results

* `bytesOf_append`: four symbols are three bytes, wherever they stand.
* `decodes_encode`: what `encode` writes spells the bytes it was given.
* `decodes_iff`: a token spells the bytes whose encoding it is, up to bits that no byte uses.
-/

namespace Base64

open BigEndian

/-- The sixty-four digits, in the order of their values. -/
def alphabet : List UInt8 :=
  "ABCDEFGHIJKLMNOPQRSTUVWXYZabcdefghijklmnopqrstuvwxyz0123456789+/".toList.map fun c =>
    UInt8.ofNat c.toNat

/-- The symbol of a sextet. -/
def symbol (sextet : ℕ) : UInt8 :=
  alphabet.getD sextet 0

/-- The padding symbol, `=`. -/
def pad : UInt8 := 0x3d

/-- Sextets as the digits of a number. -/
def number (sextets : List ℕ) : ℕ :=
  sextets.foldl (fun n sextet => n * 64 + sextet) 0

/-- The whole bytes of some sextets. The bits left over are dropped. -/
def bytesOf (sextets : List ℕ) : List UInt8 :=
  toBytes (sextets.length * 6 / 8) (number sextets / 2 ^ (sextets.length * 6 % 8))

/-- A token spells these bytes: symbols, and at most two paddings that fill up the last four. -/
def Decodes (token bytes : List UInt8) : Prop :=
  ∃ sextets padding, token = sextets.map symbol ++ List.replicate padding pad ∧ padding ≤ 2 ∧
    (∀ sextet ∈ sextets, sextet < 64) ∧ token ≠ [] ∧ 4 ∣ token.length ∧ bytes = bytesOf sextets

/-- The first `count` symbols of a 24-bit group. -/
def group (n count : ℕ) : List ℕ :=
  [n / 2 ^ 18 % 64, n / 2 ^ 12 % 64, n / 2 ^ 6 % 64, n % 64].take count

/-- Standard base64 encoding. -/
def encode : List UInt8 → List UInt8
  | [] => []
  | [a] => (group (ofBytes 0 [a, 0, 0]) 2).map symbol ++ [pad, pad]
  | [a, b] => (group (ofBytes 0 [a, b, 0]) 3).map symbol ++ [pad]
  | a :: b :: c :: rest => (group (ofBytes 0 [a, b, c]) 4).map symbol ++ encode rest

variable {q s : List ℕ}

/-- A further sextet shifts the number by six bits. -/
theorem number_concat (s : List ℕ) (sextet : ℕ) :
    number (s ++ [sextet]) = number s * 64 + sextet := by
  rw [number, List.foldl_append]
  rfl

/-- A number of sextets is split at any place. -/
theorem number_append (q s : List ℕ) :
    number (q ++ s) = number q * 64 ^ s.length + number s := by
  induction s using List.reverseRecOn with
  | nil => simp [number]
  | append_singleton s sextet ih =>
      rw [← List.append_assoc, number_concat, ih, number_concat, List.length_append,
        List.length_singleton]
      ring

/-- `n` sextets are below `64 ^ n`. -/
theorem number_lt (h : ∀ sextet ∈ s, sextet < 64) : number s < 64 ^ s.length := by
  induction s using List.reverseRecOn with
  | nil => exact Nat.one_pos
  | append_singleton s sextet ih =>
      have hs := ih fun x hx => h x (List.mem_append_left _ hx)
      have hsextet := h sextet (by simp)
      rw [number_concat, List.length_append, List.length_singleton, pow_succ]
      omega

/-- Bytes are taken into the number in two runs as in one. -/
theorem ofBytes_append (acc : ℕ) (bs cs : List UInt8) :
    ofBytes acc (bs ++ cs) = ofBytes (ofBytes acc bs) cs :=
  List.foldl_append

/-- The bits of some sextets are whole bytes and the bits left over. -/
theorem pow_length (m : ℕ) : 64 ^ m = 256 ^ (m * 6 / 8) * 2 ^ (m * 6 % 8) := by
  have h64 : (64 : ℕ) ^ m = 2 ^ (m * 6) := by
    rw [Nat.mul_comm, pow_mul]
    norm_num
  have h256 : (256 : ℕ) ^ (m * 6 / 8) = 2 ^ (8 * (m * 6 / 8)) := by
    rw [pow_mul]
    norm_num
  rw [h64, h256, ← pow_add, Nat.div_add_mod]

/-- **Four symbols are three bytes**, wherever they stand. -/
theorem bytesOf_append (hq : q.length = 4) (hdigits : ∀ sextet ∈ q, sextet < 64)
    (hs : ∀ sextet ∈ s, sextet < 64) : bytesOf (q ++ s) = toBytes 3 (number q) ++ bytesOf s := by
  have hbytes : (q ++ s).length * 6 / 8 = 3 + s.length * 6 / 8 := by
    rw [List.length_append, hq]
    omega
  have hbits : (q ++ s).length * 6 % 8 = s.length * 6 % 8 := by
    rw [List.length_append, hq]
    omega
  rw [bytesOf, hbytes, hbits]
  refine ofBytes_injective (by simp [bytesOf]) ?_
  have hnumber := number_lt hdigits
  rw [hq, show (64 : ℕ) ^ 4 = 256 ^ 3 by norm_num] at hnumber
  have hrest := number_lt hs
  rw [pow_length] at hrest
  have hcut : number (q ++ s) / 2 ^ (s.length * 6 % 8) =
      number q * 256 ^ (s.length * 6 / 8) + number s / 2 ^ (s.length * 6 % 8) := by
    rw [number_append, pow_length, ← Nat.mul_assoc, Nat.mul_comm _ (2 ^ (s.length * 6 % 8)),
      Nat.mul_add_div (Nat.two_pow_pos _)]
  have hlow : number s / 2 ^ (s.length * 6 % 8) < 256 ^ (s.length * 6 / 8) :=
    Nat.div_lt_of_lt_mul (by rwa [Nat.mul_comm])
  have hwhole : number q * 256 ^ (s.length * 6 / 8) + number s / 2 ^ (s.length * 6 % 8) <
      256 ^ (3 + s.length * 6 / 8) := by
    calc number q * 256 ^ (s.length * 6 / 8) + number s / 2 ^ (s.length * 6 % 8)
        < (number q + 1) * 256 ^ (s.length * 6 / 8) := by rw [Nat.add_mul]; omega
      _ ≤ 256 ^ 3 * 256 ^ (s.length * 6 / 8) := Nat.mul_le_mul_right _ hnumber
      _ = 256 ^ (3 + s.length * 6 / 8) := (pow_add ..).symm
  rw [ofBytes_toBytes, ofBytes_append, ofBytes_toBytes, bytesOf, ofBytes_toBytes, hcut,
    Nat.mod_eq_of_lt hlow, Nat.mod_eq_of_lt hwhole, Nat.mod_eq_of_lt hnumber]
  ring

/-- No sextets are no bytes. -/
theorem bytesOf_nil : bytesOf [] = [] :=
  rfl

/-! ### Encoding -/

/-- The digits of a group are sextets. -/
theorem group_lt (n count : ℕ) : ∀ sextet ∈ group n count, sextet < 64 := by
  intro sextet hmem
  have hfour := List.mem_of_mem_take hmem
  simp only [List.mem_cons, List.not_mem_nil, or_false] at hfour
  omega

/-- A group has the digits it was asked for, at most four. -/
theorem length_group (n count : ℕ) : (group n count).length = min count 4 := by
  rw [group, List.length_take]
  rfl

/-- The four digits of a group of three bytes are the number of the bytes. -/
theorem number_group {n : ℕ} (h : n < 2 ^ 24) : number (group n 4) = n := by
  simp only [number, group, List.take_succ_cons, List.take_zero, List.foldl_cons, List.foldl_nil]
  omega

/-- An encoding is the symbols of sextets that stand for the bytes, padded to a multiple of four.
-/
theorem exists_sextets_encode (bytes : List UInt8) :
    ∃ sextets padding, encode bytes = sextets.map symbol ++ List.replicate padding pad ∧
      padding ≤ 2 ∧ (∀ sextet ∈ sextets, sextet < 64) ∧ (sextets.length + padding) % 4 = 0 ∧
      bytesOf sextets = bytes := by
  induction bytes using encode.induct with
  | case1 => exact ⟨[], 0, rfl, by decide, by simp, rfl, rfl⟩
  | case2 a =>
      refine ⟨group (ofBytes 0 [a, 0, 0]) 2, 2, rfl, by decide, group_lt _ _,
        by rw [length_group]; rfl, ?_⟩
      have hnumber : number (group (ofBytes 0 [a, 0, 0]) 2) / 2 ^ 4 = ofBytes 0 [a] := by
        have hlt : a.toNat < 256 := a.toNat_lt
        simp [number, group]
        omega
      rw [bytesOf, length_group, ← toBytes_ofBytes [a], ← hnumber]
      rfl
  | case3 a b =>
      refine ⟨group (ofBytes 0 [a, b, 0]) 3, 1, rfl, by decide, group_lt _ _,
        by rw [length_group]; rfl, ?_⟩
      have hnumber : number (group (ofBytes 0 [a, b, 0]) 3) / 2 ^ 2 = ofBytes 0 [a, b] := by
        have ha : a.toNat < 256 := a.toNat_lt
        have hb : b.toNat < 256 := b.toNat_lt
        simp [number, group]
        omega
      rw [bytesOf, length_group, ← toBytes_ofBytes [a, b], ← hnumber]
      rfl
  | case4 a b c rest ih =>
      obtain ⟨sextets, padding, hencode, hpadding, hlt, hlength, hbytes⟩ := ih
      refine ⟨group (ofBytes 0 [a, b, c]) 4 ++ sextets, padding, ?_, hpadding, ?_, ?_, ?_⟩
      · rw [encode, hencode, List.map_append, List.append_assoc]
      · intro sextet hmem
        rcases List.mem_append.mp hmem with hgroup | hrest
        · exact group_lt _ _ sextet hgroup
        · exact hlt sextet hrest
      · rw [List.length_append, length_group]
        omega
      · have hthree : toBytes 3 (ofBytes 0 [a, b, c]) = [a, b, c] := toBytes_ofBytes [a, b, c]
        have hgroup : ofBytes 0 [a, b, c] < 2 ^ 24 :=
          lt_of_lt_of_eq (ofBytes_zero_lt [a, b, c]) (by norm_num)
        rw [bytesOf_append (length_group _ _) (group_lt _ _) hlt, number_group hgroup, hthree,
          hbytes]
        rfl

/-- **What `encode` writes spells the bytes it was given.** -/
theorem decodes_encode {bytes : List UInt8} (h : bytes ≠ []) : Decodes (encode bytes) bytes := by
  obtain ⟨sextets, padding, hencode, hpadding, hlt, hlength, hbytes⟩ := exists_sextets_encode bytes
  refine ⟨sextets, padding, hencode, hpadding, hlt, ?_, ?_, hbytes.symm⟩
  · rw [hencode]
    refine List.append_ne_nil_of_left_ne_nil (fun hnil => ?_) _
    rw [List.map_eq_nil_iff] at hnil
    subst hnil
    exact h hbytes.symm
  · rw [hencode, List.length_append, List.length_map, List.length_replicate]
    exact Nat.dvd_of_mod_eq_zero hlength

/-! ### Padded tokens -/

/-- A token of symbols and so many paddings, filled up to a multiple of four. -/
structure Padded (padding : ℕ) (token : List UInt8) : Prop where
  ne_nil : token ≠ []
  dvd : 4 ∣ token.length
  le_two : padding ≤ 2
  eq : ∃ symbols, token = symbols ++ List.replicate padding pad ∧ ∀ symbol ∈ symbols,
    symbol ∈ alphabet

/-- The tokens are the same, up to the bits of their last symbols that no byte uses: two for each
padding behind them. -/
def EqualUpToUnused (padding : ℕ) (token token' : List UInt8) : Prop :=
  ∃ front last last', last < 64 ∧ last' < 64 ∧
    last / 2 ^ (2 * padding) = last' / 2 ^ (2 * padding) ∧
    token = front ++ symbol last :: List.replicate padding pad ∧
    token' = front ++ symbol last' :: List.replicate padding pad

section

variable {padding : ℕ} {token bytes : List UInt8} {t : List ℕ} {a b : ℕ}

/-- There are sixty-four symbols. -/
theorem length_alphabet : alphabet.length = 64 := by
  decide +kernel

/-- The symbol of a sextet is its place in the alphabet. -/
theorem symbol_eq_getElem (h : a < alphabet.length) : symbol a = alphabet[a] :=
  List.getD_eq_getElem _ _ h

/-- The symbol of a sextet is in the alphabet. -/
theorem symbol_mem (h : a < 64) : symbol a ∈ alphabet := by
  rw [symbol_eq_getElem (by rwa [length_alphabet])]
  exact List.getElem_mem _

/-- Every byte of the alphabet is the symbol of a sextet. -/
theorem exists_symbol {byte : UInt8} (h : byte ∈ alphabet) : ∃ a < 64, byte = symbol a := by
  obtain ⟨a, ha, rfl⟩ := List.mem_iff_getElem.mp h
  exact ⟨a, by rwa [length_alphabet] at ha, (symbol_eq_getElem ha).symm⟩

/-- The padding is no symbol. -/
theorem pad_notMem : pad ∉ alphabet := by
  decide +kernel

/-- Two sextets have two symbols. -/
theorem symbol_injective (ha : a < 64) (hb : b < 64) (h : symbol a = symbol b) : a = b := by
  have hnodup : alphabet.Nodup := by decide +kernel
  rw [symbol_eq_getElem (by rwa [length_alphabet]),
    symbol_eq_getElem (by rwa [length_alphabet])] at h
  exact hnodup.getElem_inj_iff.mp h

/-- Symbols are those of some sextets. -/
theorem exists_sextets {symbols : List UInt8} (h : ∀ symbol ∈ symbols, symbol ∈ alphabet) :
    ∃ sextets : List ℕ, symbols = sextets.map symbol ∧ ∀ sextet ∈ sextets, sextet < 64 := by
  induction symbols with
  | nil => exact ⟨[], rfl, by simp⟩
  | cons byte symbols ih =>
      rw [List.forall_mem_cons] at h
      obtain ⟨sextet, hlt, rfl⟩ := exists_symbol h.1
      obtain ⟨sextets, rfl, hsextets⟩ := ih h.2
      exact ⟨sextet :: sextets, rfl, List.forall_mem_cons.mpr ⟨hlt, hsextets⟩⟩

/-- A text of symbols is that of one list of sextets only. -/
theorem map_symbol_injective (hs : ∀ sextet ∈ s, sextet < 64) (ht : ∀ sextet ∈ t, sextet < 64)
    (h : s.map symbol = t.map symbol) : s = t := by
  induction s generalizing t with
  | nil => exact (List.map_eq_nil_iff.mp h.symm).symm
  | cons a s ih =>
      obtain - | ⟨b, t⟩ := t
      · cases h
      · rw [List.forall_mem_cons] at hs ht
        rw [List.map_cons, List.map_cons, List.cons.injEq] at h
        rw [symbol_injective hs.1 ht.1 h.1, ih hs.2 ht.2 h.2]

/-- There is no padding among symbols. -/
theorem count_pad_map (hs : ∀ sextet ∈ s, sextet < 64) : (s.map symbol).count pad = 0 := by
  rw [List.count_eq_zero]
  intro hmem
  obtain ⟨sextet, hsextet, hpad⟩ := List.mem_map.mp hmem
  exact pad_notMem (hpad ▸ symbol_mem (hs sextet hsextet))

/-- **A token has one reading** as sextets and padding. -/
theorem spelling_unique {padding' : ℕ} (hs : ∀ sextet ∈ s, sextet < 64)
    (ht : ∀ sextet ∈ t, sextet < 64)
    (h : s.map symbol ++ List.replicate padding pad =
      t.map symbol ++ List.replicate padding' pad) : s = t ∧ padding = padding' := by
  have hcount := congrArg (List.count pad) h
  rw [List.count_append, List.count_append, count_pad_map hs, count_pad_map ht,
    List.count_replicate_self, List.count_replicate_self, Nat.zero_add, Nat.zero_add] at hcount
  subst hcount
  exact ⟨map_symbol_injective hs ht (List.append_cancel_right h), rfl⟩

/-- A list that is not empty has a last element. -/
theorem exists_concat (h : 0 < s.length) : ∃ front last, s = front ++ [last] :=
  ⟨s.dropLast, s.getLast (List.length_pos_iff.mp h), (List.dropLast_append_getLast _).symm⟩

/-- Sextets of one length are told apart by their number. -/
theorem number_injective (hlength : s.length = t.length) (hs : ∀ sextet ∈ s, sextet < 64)
    (ht : ∀ sextet ∈ t, sextet < 64) (h : number s = number t) : s = t := by
  induction s using List.reverseRecOn generalizing t with
  | nil => exact (List.length_eq_zero_iff.mp hlength.symm).symm
  | append_singleton s a ih =>
      obtain rfl | ⟨t, b, rfl⟩ := t.eq_nil_or_concat
      · simp at hlength
      · rw [List.concat_eq_append] at hlength ht h ⊢
        rw [List.forall_mem_append, List.forall_mem_singleton] at hs ht
        rw [List.length_append, List.length_append] at hlength
        rw [number_concat, number_concat] at h
        have ha := hs.2
        have hb := ht.2
        have hfront : number s = number t := by omega
        have hlast : a = b := by omega
        rw [ih (Nat.add_right_cancel hlength) hs.1 ht.1 hfront, hlast]

/-- What is left of the number without the spare bits fits the whole bytes. -/
theorem number_div_lt (hs : ∀ sextet ∈ s, sextet < 64) :
    number s / 2 ^ (s.length * 6 % 8) < 256 ^ (s.length * 6 / 8) := by
  have h := number_lt hs
  rw [pow_length] at h
  exact Nat.div_lt_of_lt_mul (by rwa [Nat.mul_comm])

/-- Sextets have the same bytes exactly when they agree but for the bits left over. -/
theorem bytesOf_eq_iff (hlength : s.length = t.length) (hs : ∀ sextet ∈ s, sextet < 64)
    (ht : ∀ sextet ∈ t, sextet < 64) :
    bytesOf s = bytesOf t ↔
      number s / 2 ^ (s.length * 6 % 8) = number t / 2 ^ (s.length * 6 % 8) := by
  have hslt := number_div_lt hs
  have htlt := number_div_lt ht
  rw [← hlength] at htlt
  rw [bytesOf, bytesOf, ← hlength]
  constructor
  · intro h
    have hvalue := congrArg (ofBytes 0) h
    rwa [ofBytes_toBytes, ofBytes_toBytes, Nat.mod_eq_of_lt hslt, Nat.mod_eq_of_lt htlt,
      Nat.zero_mul, Nat.zero_add, Nat.zero_add] at hvalue
  · intro h
    rw [h]

/-- The number of bytes tells the number of sextets and the padding. -/
theorem counts_unique {m n padding' : ℕ} (hpadding : padding ≤ 2) (hpadding' : padding' ≤ 2)
    (hm : (m + padding) % 4 = 0) (hn : (n + padding') % 4 = 0) (h : m * 6 / 8 = n * 6 / 8) :
    m = n ∧ padding = padding' := by
  have hbytes {m padding : ℕ} (hpadding : padding ≤ 2) (hm : (m + padding) % 4 = 0) :
      m * 6 / 8 = 3 * ((m + padding) / 4) - padding := by omega
  rw [hbytes hpadding hm, hbytes hpadding' hn] at h
  omega

/-- In a padded token the bits left over are in the last symbol. -/
theorem bytesOf_concat_eq_iff (hlength : s.length = t.length)
    (hs : ∀ sextet ∈ s ++ [a], sextet < 64) (ht : ∀ sextet ∈ t ++ [b], sextet < 64)
    (hpadding : padding ≤ 2) (hfour : (s.length + 1 + padding) % 4 = 0) :
    bytesOf (s ++ [a]) = bytesOf (t ++ [b]) ↔
      s = t ∧ a / 2 ^ (2 * padding) = b / 2 ^ (2 * padding) := by
  have hsame : (s ++ [a]).length = (t ++ [b]).length := by
    rw [List.length_append, List.length_append, hlength]
    rfl
  have hbits : (s ++ [a]).length * 6 % 8 = 2 * padding := by
    rw [List.length_append, List.length_singleton]
    omega
  rw [bytesOf_eq_iff hsame hs ht, hbits, number_concat, number_concat]
  rw [List.forall_mem_append, List.forall_mem_singleton] at hs ht
  have ha := hs.2
  have hb := ht.2
  constructor
  · intro h
    have hnumber : number s = number t ∧ a / 2 ^ (2 * padding) = b / 2 ^ (2 * padding) := by
      obtain rfl | rfl | rfl : padding = 0 ∨ padding = 1 ∨ padding = 2 := by omega
      · omega
      · omega
      · omega
    exact ⟨number_injective hlength hs.1 ht.1 hnumber.1, hnumber.2⟩
  · rintro ⟨rfl, h⟩
    obtain rfl | rfl | rfl : padding = 0 ∨ padding = 1 ∨ padding = 2 := by omega
    · omega
    · omega
    · omega

/-- The sextets hold one byte for every eight bits. -/
theorem length_bytesOf (s : List ℕ) : (bytesOf s).length = s.length * 6 / 8 := by
  rw [bytesOf, length_toBytes]

/-- Sextets and padding that make up a token. -/
theorem padded_symbols (hs : ∀ sextet ∈ s, sextet < 64) (hpadding : padding ≤ 2)
    (hne : s.map symbol ++ List.replicate padding pad ≠ [])
    (hdvd : 4 ∣ (s.map symbol ++ List.replicate padding pad).length) :
    Padded padding (s.map symbol ++ List.replicate padding pad) := by
  refine ⟨hne, hdvd, hpadding, s.map symbol, rfl, fun byte hmem => ?_⟩
  obtain ⟨sextet, hsextet, rfl⟩ := List.mem_map.mp hmem
  exact symbol_mem (hs sextet hsextet)

/-- The symbol of the last sextet stands right before the padding. -/
theorem map_symbol_concat (front : List ℕ) (last padding : ℕ) :
    (front ++ [last]).map symbol ++ List.replicate padding pad =
      front.map symbol ++ symbol last :: List.replicate padding pad := by
  rw [List.map_append, List.append_assoc]
  rfl

/-- The encoding of the bytes has as many sextets, and the same but for the bits left over. -/
theorem equalUpToUnused_encode (hs : ∀ sextet ∈ s, sextet < 64) (hne : 0 < s.length)
    (hpadding : padding ≤ 2) (hfour : (s.length + padding) % 4 = 0) :
    EqualUpToUnused padding (encode (bytesOf s)) (s.map symbol ++ List.replicate padding pad) := by
  obtain ⟨written, padding', hencode, hpadding', hwritten, hfour', hbytes⟩ :=
    exists_sextets_encode (bytesOf s)
  have hcount := congrArg List.length hbytes
  rw [length_bytesOf, length_bytesOf] at hcount
  obtain ⟨hsame, rfl⟩ := counts_unique hpadding' hpadding hfour' hfour hcount
  obtain ⟨front, last, rfl⟩ := exists_concat hne
  obtain ⟨front', last', rfl⟩ := exists_concat (hsame ▸ hne)
  rw [List.length_append, List.length_append] at hsame
  have hlength := Nat.add_right_cancel hsame
  rw [List.length_append, List.length_singleton, ← hlength] at hfour
  obtain ⟨rfl, hlast⟩ :=
    (bytesOf_concat_eq_iff hlength hwritten hs hpadding hfour).mp hbytes
  refine ⟨front'.map symbol, last', last, hwritten last' (by simp), hs last (by simp), hlast,
    ?_, map_symbol_concat _ _ _⟩
  rw [hencode, map_symbol_concat]

/-- A padded text decodes. -/
theorem Padded.exists_decodes (h : Padded padding token) : ∃ bytes, Decodes token bytes := by
  obtain ⟨symbols, htoken, halphabet⟩ := h.eq
  obtain ⟨sextets, rfl, hlt⟩ := exists_sextets halphabet
  exact ⟨bytesOf sextets, sextets, padding, htoken, h.le_two, hlt, h.ne_nil, h.dvd, rfl⟩

/-- A token that is the encoding of some bytes, up to bits that no byte uses, spells them. -/
theorem Padded.decodes (h : Padded padding token)
    (hsame : EqualUpToUnused padding (encode bytes) token) : Decodes token bytes := by
  obtain ⟨front, last, last', hlast, hlast', hunused, hencode, htoken⟩ := hsame
  obtain ⟨symbols, hsymbols, halphabet⟩ := h.eq
  have hsplit : symbols = front ++ [symbol last'] := by
    rw [htoken, List.append_cons] at hsymbols
    exact (List.append_cancel_right hsymbols).symm
  subst hsplit
  obtain ⟨front, rfl, hfront⟩ := exists_sextets (List.forall_mem_append.mp halphabet).1
  have hlt {a : ℕ} (ha : a < 64) : ∀ sextet ∈ front ++ [a], sextet < 64 :=
    List.forall_mem_append.mpr ⟨hfront, List.forall_mem_singleton.mpr ha⟩
  rw [← map_symbol_concat] at hencode htoken
  -- the encoding has one reading, which is that of the bytes
  obtain ⟨written, padding', hencode', -, hwritten, hfour, hbytes⟩ := exists_sextets_encode bytes
  obtain ⟨rfl, rfl⟩ := spelling_unique hwritten (hlt hlast) (hencode'.symm.trans hencode)
  rw [List.length_append] at hfour
  have hsamebytes := (bytesOf_concat_eq_iff rfl (hlt hlast) (hlt hlast') h.le_two hfour).mpr
    ⟨rfl, hunused⟩
  exact ⟨front ++ [last'], padding', htoken, h.le_two, hlt hlast', h.ne_nil, h.dvd,
    hbytes.symm.trans hsamebytes⟩

/-- **A token spells the bytes whose encoding it is**, up to bits that no byte uses. -/
theorem decodes_iff :
    Decodes token bytes ↔ ∃ padding, Padded padding token ∧
      bytes.length = 3 * token.length / 4 - padding ∧
      EqualUpToUnused padding (encode bytes) token := by
  constructor
  · rintro ⟨sextets, padding, rfl, hpadding, hlt, hne, hdvd, rfl⟩
    have hpadded := padded_symbols hlt hpadding hne hdvd
    have hfour := Nat.mod_eq_zero_of_dvd hdvd
    have hpos := List.length_pos_iff.mpr hne
    rw [List.length_append, List.length_map, List.length_replicate] at hfour hpos
    refine ⟨padding, hpadded, ?_, equalUpToUnused_encode hlt (by omega) hpadding hfour⟩
    rw [length_bytesOf, List.length_append, List.length_map, List.length_replicate]
    omega
  · rintro ⟨padding, hpadded, -, hsame⟩
    exact hpadded.decodes hsame

end

end Base64
