import Mathlib.Data.List.Basic
import Volto.Bytes
import Volto.Lib.Base64

/-!
# Decoding Base64

The hand-rolled decoder of `auth.rs`: a quantum of four symbols at a time, padding in the last one
only. It accepts what standard base64 spells and nothing else, and lets the unused low bits of a
padded quantum be anything.

## Main results

* `decodeBase64_eq_some`: the decoder reads exactly the tokens that spell some bytes.
-/

namespace Volto

open Base64

/-- The 6-bit value of one base64 alphabet character. -/
def sextet (byte : UInt8) : Option UInt8 :=
  if isAsciiUppercase byte then some (byte - 0x41)
  else if isAsciiLowercase byte then some (byte - 0x61 + 26)
  else if isAsciiDigit byte then some (byte - 0x30 + 52)
  else if byte = 0x2b then some 62
  else if byte = 0x2f then some 63
  else none

/-- Shifts the sextet of a byte into the bits of its quantum. -/
def shiftSextet (bits : ℕ) (byte : UInt8) : Option ℕ :=
  (sextet byte).map fun value => (bits <<< 6) ||| value.toNat

/-- One pass of the loop: four symbols, of which only the last four may be padding. -/
def decodeQuantum (last : Bool) (quantum : List UInt8) : Option (List UInt8) := do
  let padding := if last then quantum.count pad else 0
  if 2 < padding then none
  else
    let bits ← (quantum.take (4 - padding)).foldlM shiftSextet 0
    let group := BigEndian.toBytes 4 (bits <<< (6 * padding))
    some ((group.take (4 - padding)).drop 1)

/-- The loop over the quanta. -/
def decodeQuanta : List UInt8 → Option (List UInt8)
  | a :: b :: c :: d :: rest => do
      let out ← decodeQuantum rest.isEmpty [a, b, c, d]
      let outs ← decodeQuanta rest
      some (out ++ outs)
  | _ => some []

/-- Decodes standard base64. -/
def decodeBase64 (input : List UInt8) : Option (List UInt8) :=
  if input.isEmpty ∨ input.length % 4 ≠ 0 then none else decodeQuanta input

/-! ### Symbols -/

/-- A sextet is read back from its symbol. -/
theorem sextet_symbol {s : ℕ} (h : s < 64) : sextet (symbol s) = some (UInt8.ofNat s) := by
  revert s
  decide +kernel

/-- Only a symbol is read as a sextet, and as its own. -/
theorem sextet_eq_some {byte value : UInt8} (h : sextet byte = some value) :
    value.toNat < 64 ∧ symbol value.toNat = byte := by
  have hall : ∀ byte : UInt8, ∀ value ∈ sextet byte, value.toNat < 64 ∧
      symbol value.toNat = byte :=
    forall_byte (by decide +kernel)
  exact hall byte value h

variable {q : List ℕ} {quantum out : List UInt8} {p : ℕ}

/-- A symbol shifts its sextet in. -/
theorem shiftSextet_symbol (bits : ℕ) {s : ℕ} (h : s < 64) :
    shiftSextet bits (symbol s) = some (bits * 64 + s) := by
  have hvalue : (UInt8.ofNat s).toNat = s := by
    rw [UInt8.toNat_ofNat']
    omega
  rw [shiftSextet, sextet_symbol h, Option.map_some, hvalue,
    ← Nat.shiftLeft_add_eq_or_of_lt (b := s) (i := 6) h, Nat.shiftLeft_eq]

/-- The bits of some symbols are the number of their sextets. -/
theorem foldlM_symbols (hq : ∀ s ∈ q, s < 64) :
    (q.map symbol).foldlM shiftSextet 0 = some (number q) := by
  induction q using List.reverseRecOn with
  | nil => rfl
  | append_singleton q s ih =>
      rw [List.map_append, List.foldlM_append, ih fun x hx => hq x (List.mem_append_left _ hx),
        number_concat]
      simp [shiftSextet_symbol _ (hq s (by simp))]

/-- What was shifted in was a text of symbols. -/
theorem exists_sextets_of_foldlM {bits bits' : ℕ} {bytes : List UInt8}
    (h : bytes.foldlM shiftSextet bits = some bits') :
    ∃ q : List ℕ, bytes = q.map symbol ∧ ∀ s ∈ q, s < 64 := by
  induction bytes generalizing bits with
  | nil => exact ⟨[], rfl, by simp⟩
  | cons byte bytes ih =>
      rw [List.foldlM_cons, Option.bind_eq_bind, Option.bind_eq_some_iff] at h
      obtain ⟨next, hnext, hrest⟩ := h
      obtain ⟨value, hvalue, -⟩ := Option.map_eq_some_iff.mp hnext
      obtain ⟨hlt, hsymbol⟩ := sextet_eq_some hvalue
      obtain ⟨q, rfl, hq⟩ := ih hrest
      exact ⟨value.toNat :: q, by rw [List.map_cons, hsymbol], by simpa using ⟨hlt, hq⟩⟩

/-! ### A quantum -/

/-- The whole bytes of the group are those of its sextets. -/
theorem group_bytes (hlength : q.length + p = 4) (hp : p ≤ 2) :
    ((BigEndian.toBytes 4 (number q <<< (6 * p))).take (4 - p)).drop 1 = bytesOf q := by
  obtain rfl | rfl | rfl : p = 0 ∨ p = 1 ∨ p = 2 := by omega
  · have hq : q.length = 4 := hlength
    simp [bytesOf, hq, BigEndian.toBytes]
  · have hq : q.length = 3 := Nat.succ.inj hlength
    have hhigh : number q * 64 / 65536 = number q / 4 / 256 := by omega
    have hlow : number q * 64 / 256 = number q / 4 := by omega
    simp [bytesOf, hq, BigEndian.toBytes, Nat.shiftLeft_eq, Nat.shiftRight_eq_div_pow, hhigh, hlow]
  · have hq : q.length = 2 := Nat.succ.inj (Nat.succ.inj hlength)
    have hbyte : number q * 4096 / 65536 = number q / 16 := by omega
    simp [bytesOf, hq, BigEndian.toBytes, Nat.shiftLeft_eq, Nat.shiftRight_eq_div_pow, hbyte]

/-- **A quantum of symbols and padding is read as its bytes.** -/
theorem decodeQuantum_symbols (hq : ∀ s ∈ q, s < 64) (hlength : q.length + p = 4) (hp : p ≤ 2)
    {last : Bool} (hlast : last = true ∨ p = 0) :
    decodeQuantum last (q.map symbol ++ List.replicate p pad) = some (bytesOf q) := by
  have hpadding :
      (if last = true then (q.map symbol ++ List.replicate p pad).count pad else 0) = p := by
    rw [List.count_append, count_pad_map hq, List.count_replicate_self, Nat.zero_add]
    rcases hlast with rfl | rfl
    · rfl
    · exact ite_self 0
  have htake : (q.map symbol ++ List.replicate p pad).take (4 - p) = q.map symbol :=
    List.take_left' (by rw [List.length_map]; omega)
  rw [decodeQuantum, hpadding, if_neg (not_lt.mpr hp), htake, foldlM_symbols hq]
  exact congrArg some (group_bytes hlength hp)

/-- **Nothing else is read.** -/
theorem exists_of_decodeQuantum {last : Bool} (hquantum : quantum.length = 4)
    (h : decodeQuantum last quantum = some out) :
    ∃ (q : List ℕ) (p : ℕ), quantum = q.map symbol ++ List.replicate p pad ∧ (∀ s ∈ q, s < 64) ∧
      q.length + p = 4 ∧ p ≤ 2 ∧ (last = true ∨ p = 0) := by
  obtain ⟨p, hp⟩ : ∃ p, (if last then quantum.count pad else 0) = p := ⟨_, rfl⟩
  rw [decodeQuantum, hp] at h
  split_ifs at h with hmany
  rw [Option.bind_eq_bind, Option.bind_eq_some_iff] at h
  obtain ⟨bits, hbits, -⟩ := h
  obtain ⟨q, hsymbols, hq⟩ := exists_sextets_of_foldlM hbits
  have hlength : q.length + p = 4 := by
    have := congrArg List.length hsymbols
    rw [List.length_take, hquantum, List.length_map] at this
    omega
  -- The padding that was counted is what the symbols leave of the quantum.
  have hdrop : quantum.drop (4 - p) = List.replicate p pad := by
    cases last with
    | false =>
        obtain rfl : 0 = p := hp
        rw [List.drop_of_length_le (by omega), List.replicate_zero]
    | true =>
        have hcount : quantum.count pad = p := hp
        rw [← List.take_append_drop (4 - p) quantum, List.count_append, hsymbols,
          count_pad_map hq, Nat.zero_add] at hcount
        have hrest : (quantum.drop (4 - p)).length = p := by
          rw [List.length_drop, hquantum]
          omega
        refine List.eq_replicate_iff.mpr ⟨hrest, fun byte hmem => ?_⟩
        exact (List.count_eq_length.mp (hcount.trans hrest.symm) byte hmem).symm
  refine ⟨q, p, ?_, hq, hlength, by omega, ?_⟩
  · rw [← hsymbols, ← hdrop, List.take_append_drop]
  · cases last with
    | false => exact .inr hp.symm
    | true => exact .inl rfl

/-! ### The loop -/

/-- The first quantum is decoded first, and is the last if nothing follows. -/
theorem decodeQuanta_append (hquantum : quantum.length = 4) (rest : List UInt8) :
    decodeQuanta (quantum ++ rest) =
      (decodeQuantum rest.isEmpty quantum).bind fun out =>
        (decodeQuanta rest).bind fun outs => some (out ++ outs) := by
  obtain ⟨a, tail, rfl⟩ := List.exists_cons_of_length_eq_add_one hquantum
  obtain ⟨b, c, d, rfl⟩ := List.length_eq_three.mp (Nat.succ.inj hquantum)
  rfl

/-- **Symbols and padding are read as their bytes**, a quantum at a time. -/
theorem decodeQuanta_symbols {s : List ℕ} (hs : ∀ x ∈ s, x < 64) (hp : p ≤ 2)
    (hlength : (s.length + p) % 4 = 0) :
    decodeQuanta (s.map symbol ++ List.replicate p pad) = some (bytesOf s) := by
  induction hn : s.length using Nat.strong_induction_on generalizing s with
  | _ n ih =>
      subst hn
      by_cases hshort : s.length + p ≤ 4
      · by_cases hempty : s.length + p = 0
        · obtain ⟨hs, rfl⟩ := Nat.add_eq_zero_iff.mp hempty
          rw [List.length_eq_zero_iff] at hs
          subst hs
          rfl
        -- The last quantum, the only one with padding.
        · have hfour : s.length + p = 4 := by omega
          have hquantum : (s.map symbol ++ List.replicate p pad).length = 4 := by simpa using hfour
          have hstep := decodeQuanta_append hquantum []
          rw [List.append_nil] at hstep
          rw [hstep, List.isEmpty_nil, decodeQuantum_symbols hs hfour hp (.inl rfl)]
          simp [decodeQuanta]
      · obtain ⟨q, s, rfl, hq⟩ : ∃ q s', s = q ++ s' ∧ q.length = 4 :=
          ⟨s.take 4, s.drop 4, (List.take_append_drop 4 s).symm, by rw [List.length_take]; omega⟩
        rw [List.length_append, hq] at hlength hshort ih
        have hdigits : ∀ x ∈ q, x < 64 := fun x hx => hs x (List.mem_append_left _ hx)
        have hrest : ∀ x ∈ s, x < 64 := fun x hx => hs x (List.mem_append_right _ hx)
        have hmore : (s.map symbol ++ List.replicate p pad).isEmpty = false := by
          rw [List.isEmpty_eq_false_iff, ← List.length_pos_iff]
          simp
          omega
        have hlast : false = true ∨ 0 = 0 := .inr rfl
        have hquantum := decodeQuantum_symbols hdigits hq (Nat.zero_le 2) hlast
        rw [List.replicate_zero, List.append_nil] at hquantum
        have hbytes : bytesOf (q ++ s) = bytesOf q ++ bytesOf s := by
          have hnil := bytesOf_append hq hdigits (s := []) (by simp)
          rw [List.append_nil, bytesOf_nil, List.append_nil] at hnil
          rw [bytesOf_append hq hdigits hrest, hnil]
        rw [List.map_append, List.append_assoc, decodeQuanta_append (by simpa using hq), hmore,
          hquantum, ih s.length (by omega) hrest (by omega) rfl, hbytes]
        rfl

/-- **Nothing else is read.** -/
theorem exists_of_decodeQuanta {token bytes : List UInt8} (htoken : token.length % 4 = 0)
    (h : decodeQuanta token = some bytes) :
    ∃ (s : List ℕ) (p : ℕ), token = s.map symbol ++ List.replicate p pad ∧ (∀ x ∈ s, x < 64) ∧
      p ≤ 2 := by
  induction hn : token.length using Nat.strong_induction_on generalizing token bytes with
  | _ n ih =>
      subst hn
      by_cases hempty : token = []
      · exact ⟨[], 0, hempty, by simp, Nat.zero_le 2⟩
      obtain ⟨quantum, rest, rfl, hquantum⟩ : ∃ quantum rest, token = quantum ++ rest ∧
          quantum.length = 4 := by
        have hpos := List.length_pos_iff.mpr hempty
        exact ⟨token.take 4, token.drop 4, (List.take_append_drop 4 token).symm, by
          rw [List.length_take]
          omega⟩
      rw [decodeQuanta_append hquantum, Option.bind_eq_some_iff] at h
      obtain ⟨out, hout, h⟩ := h
      rw [Option.bind_eq_some_iff] at h
      obtain ⟨outs, houts, -⟩ := h
      obtain ⟨q, p, rfl, hq, -, hp, hlast⟩ := exists_of_decodeQuantum hquantum hout
      rcases hlast with hlast | rfl
      · rw [List.isEmpty_iff] at hlast
        subst hlast
        exact ⟨q, p, by rw [List.append_nil], hq, hp⟩
      · rw [List.length_append, hquantum] at htoken ih
        obtain ⟨s, p, rfl, hs, hp⟩ := ih rest.length (by omega) (by omega) houts rfl
        refine ⟨q ++ s, p, by simp, fun x hx => ?_, hp⟩
        exact (List.mem_append.mp hx).elim (hq x) (hs x)

/-- **The decoder reads exactly the tokens that spell some bytes.** -/
theorem decodeBase64_eq_some {token bytes : List UInt8} :
    decodeBase64 token = some bytes ↔ Decodes token bytes := by
  rw [decodeBase64]
  constructor
  · intro h
    split_ifs at h with hframe
    rw [not_or, List.isEmpty_iff, not_not] at hframe
    obtain ⟨hne, hlength⟩ := hframe
    obtain ⟨s, p, rfl, hs, hp⟩ := exists_of_decodeQuanta hlength h
    have hlength' := hlength
    rw [List.length_append, List.length_map, List.length_replicate] at hlength'
    rw [decodeQuanta_symbols hs hp hlength'] at h
    exact ⟨s, p, rfl, hp, hs, hne, Nat.dvd_of_mod_eq_zero hlength, (Option.some.inj h).symm⟩
  · rintro ⟨s, p, rfl, hp, hs, hne, hlength, rfl⟩
    have hframe : ¬((s.map symbol ++ List.replicate p pad).isEmpty ∨
        (s.map symbol ++ List.replicate p pad).length % 4 ≠ 0) := by
      rw [not_or, List.isEmpty_iff, not_not]
      exact ⟨hne, Nat.mod_eq_zero_of_dvd hlength⟩
    rw [if_neg hframe]
    refine decodeQuanta_symbols hs hp ?_
    simpa using Nat.mod_eq_zero_of_dvd hlength

end Volto
