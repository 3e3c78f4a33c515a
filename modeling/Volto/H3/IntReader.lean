import Volto.H3.QpackFaults
import Volto.Lib.Checked
import Volto.Lib.Continued
import Volto.Lib.Saturating

/-!
# The Integer Reader

`take_int` of `h3/qpack.rs` as the source has it: a cursor that is moved past every byte that was
looked at, whatever comes of it, and machine words in which a shift, a sum or a cast could lose
bits. Both are written out, and neither happens: the reader never faults, and what it returns is
what `takeInt` returns.

What the bytes of an integer denote is RFC 7541's definition, over the natural numbers: a prefix
that is not full is the value, and a full one is a base that the seven-bit groups behind it are
added to, the least significant first, up to the first without a continuation bit.

## Main results

* `Reader.takeInt_ends`: everything the reader can do, and how far it has moved then.
* `prefixed_integers_exact`: integers are read back, and only what they denote is read.
-/

namespace Volto

namespace Qpack

open Checked Continued

/-- A byte with its continuation bit set. -/
def GoesOn (byte : UInt8) : Prop :=
  128 ≤ byte.toNat

/-- Whether a byte goes on is decided by its value. -/
instance (byte : UInt8) : Decidable (GoesOn byte) :=
  inferInstanceAs (Decidable (_ ≤ _))

/-- **What the bytes of an integer denote** in a prefix of some bits: the flags above the prefix
and the value. -/
inductive Denotes (prefixBits : ℕ) : List UInt8 → ℕ → ℕ → Prop
  | small {first : UInt8} (h : first.toNat % 2 ^ prefixBits < 2 ^ prefixBits - 1) :
      Denotes prefixBits [first] (first.toNat / 2 ^ prefixBits) (first.toNat % 2 ^ prefixBits)
  | long {first : UInt8} {groups : List UInt8}
      (h : first.toNat % 2 ^ prefixBits = 2 ^ prefixBits - 1) (hgroups : Whole GoesOn groups) :
      Denotes prefixBits (first :: groups) (first.toNat / 2 ^ prefixBits)
        (2 ^ prefixBits - 1 + groupsValue groups)

/-- A cursor over an encoded field section. -/
structure Reader where
  buf : List UInt8
deriving DecidableEq, Repr

namespace Reader

/-- The loop over the continuation bytes; the shift is a `u32`. -/
def takeIntLoop (shift value : ℕ) : List UInt8 → Except Stop (Except Violation ℕ × Reader)
  | [] => .ok (.error truncated, ⟨[]⟩)
  | byte :: rest =>
      match addGroup shift value (byte.toNat &&& 0x7f) with
      | none => .ok (.error (streamError "prefixed integer overflows"), ⟨rest⟩)
      | some value =>
          if byte.toNat &&& 0x80 = 0 then .ok (.ok value, ⟨rest⟩)
          else do
            let shift ← add Saturating.limit32 shift 7
            takeIntLoop shift value rest

/-- Reads a prefixed integer. The mask and the flags are computed in `u16` and cast to `u8`. -/
def takeInt (r : Reader) (prefixBits : ℕ) :
    Except Stop (Except Violation (ℕ × ℕ) × Reader) :=
  match r.buf with
  | [] => .ok (.error truncated, r)
  | first :: rest => do
      let power ← shl 16 1 prefixBits
      let mask ← sub power 1
      let mask ← narrow 8 mask
      let flags ← shr 16 first.toNat prefixBits
      let flags ← narrow 8 flags
      let value := first.toNat &&& mask
      if value < mask then .ok (.ok (flags, value), ⟨rest⟩)
      else do
        let (answer, r) ← takeIntLoop 0 value rest
        .ok (answer.map fun value => (flags, value), r)

/-! ### The loop -/

/-- **Everything the loop can do**, with the groups it has moved past. -/
inductive LoopEnds (base : ℕ) (groups rest : List UInt8) : Except Violation ℕ → Prop
  | value (hwhole : Whole GoesOn groups) (hfits : Fits base groups) :
      LoopEnds base groups rest (.ok (base + groupsValue groups))
  | truncated (hlength : groups.length ≤ 10) (hrest : rest = []) :
      LoopEnds base groups rest (.error truncated)
  | overflow (hlength : groups.length ≤ 11) :
      LoopEnds base groups rest (.error (streamError "prefixed integer overflows"))

/-- The loop over the groups ends behind the groups it read. The induction is on what is left. -/
theorem takeIntLoop_ends (base : ℕ) {before : List UInt8} (hopen : Open GoesOn before)
    (hbefore : before.length ≤ 10) (buf : List UInt8) :
    ∃ groups rest answer,
      takeIntLoop (7 * before.length) (base + groupsValue before) buf = .ok (answer, ⟨rest⟩) ∧
        before ++ buf = groups ++ rest ∧ LoopEnds base groups rest answer := by
  induction buf generalizing before with
  | nil => exact ⟨before, [], _, rfl, rfl, .truncated hbefore rfl⟩
  | cons byte rest ih =>
      have hsplit : before ++ byte :: rest = before ++ [byte] ++ rest := by simp
      have hlength : (before ++ [byte]).length = before.length + 1 := by simp
      rw [takeIntLoop, addGroup_eq]
      by_cases hfits : Fits base (before ++ [byte])
      · rw [if_pos hfits]
        simp only [and_top_bit_iff]
        by_cases hlast : byte.toNat < 128
        · rw [if_pos hlast]
          have hwhole : Whole GoesOn (before ++ [byte]) := hopen.whole (Nat.not_le.mpr hlast)
          exact ⟨before ++ [byte], rest, _, rfl, hsplit, .value hwhole hfits⟩
        · -- a group that fits leaves a shift that a `u32` holds
          have hle := hfits.1
          have hmore : Open GoesOn (before ++ [byte]) :=
            open_concat.mpr ⟨hopen, Nat.le_of_not_lt hlast⟩
          have hshift : 7 * before.length + 7 = 7 * (before ++ [byte]).length := by omega
          have hlimit : 7 * before.length + 7 ≤ Saturating.limit32 := by
            rw [Saturating.limit32]
            omega
          rw [if_neg hlast, add_of_le hlimit, Fallible.ok_bind, hshift, hsplit]
          exact ih hmore hle
      · rw [if_neg hfits]
        exact ⟨before ++ [byte], rest, _, rfl, hsplit, .overflow (by omega)⟩

/-- The loop does what `takeIntLoop` does, and moves as far. -/
theorem takeIntLoop_refines {shift value : ℕ} {buf rest : List UInt8} {answer : Except Violation ℕ}
    (h : takeIntLoop shift value buf = .ok (answer, ⟨rest⟩)) :
    Qpack.takeIntLoop shift value buf = answer.map fun value => (value, rest) := by
  induction buf generalizing shift value with
  | nil =>
      cases h
      rfl
  | cons byte buf ih =>
      rw [takeIntLoop] at h
      rw [Qpack.takeIntLoop]
      cases hadd : addGroup shift value (byte.toNat &&& 0x7f) with
      | none =>
          rw [hadd] at h
          cases h
          rfl
      | some value' =>
          rw [hadd] at h
          simp only at h ⊢
          split_ifs at h ⊢ with hlast
          · cases h
            rfl
          · obtain ⟨shift', hshift, hrest⟩ := Fallible.bind_eq_ok.mp h
            rw [add] at hshift
            split_ifs at hshift
            cases hshift
            exact ih hrest

/-! ### The reader -/

/-- The mask and the flags of a first byte are bytes, and nothing is lost in computing them. -/
theorem takeInt_cons {prefixBits : ℕ} (hbits : prefixBits ≤ 8) (first : UInt8)
    (rest : List UInt8) :
    takeInt ⟨first :: rest⟩ prefixBits =
      if first.toNat % 2 ^ prefixBits < 2 ^ prefixBits - 1 then
        .ok (.ok (first.toNat / 2 ^ prefixBits, first.toNat % 2 ^ prefixBits), ⟨rest⟩)
      else
        takeIntLoop 0 (first.toNat % 2 ^ prefixBits) rest >>= fun (answer, r) =>
          .ok (answer.map fun value => (first.toNat / 2 ^ prefixBits, value), r) := by
  have hfirst : first.toNat < 256 := first.toNat_lt
  have hpos := Nat.two_pow_pos prefixBits
  have hpow : 2 ^ prefixBits ≤ 2 ^ 8 := Nat.pow_le_pow_right (by decide) hbits
  have hpower : 1 <<< prefixBits < 2 ^ 16 := by
    rw [Nat.one_shiftLeft]
    omega
  have hmask : (1 <<< prefixBits) - 1 < 2 ^ 8 := by
    rw [Nat.one_shiftLeft]
    omega
  have hflags : first.toNat >>> prefixBits < 2 ^ 8 :=
    Nat.lt_of_le_of_lt (Nat.shiftRight_le _ _) hfirst
  rw [takeInt]
  simp only
  rw [shl_of_lt (by omega) hpower, Fallible.ok_bind, sub_of_le (by rw [Nat.one_shiftLeft]; omega),
    Fallible.ok_bind, narrow_of_lt hmask, Fallible.ok_bind, shr_of_lt (by omega),
    Fallible.ok_bind, narrow_of_lt hflags, Fallible.ok_bind, Nat.one_shiftLeft,
    Nat.and_two_pow_sub_one_eq_mod, Nat.shiftRight_eq_div_pow]

/-- **Everything the reader can do**, with the bytes it has moved past. -/
inductive Ends (prefixBits : ℕ) (consumed rest : List UInt8) :
    Except Violation (ℕ × ℕ) → Prop
  | value {flags value : ℕ} (h : Denotes prefixBits consumed flags value)
      (hlength : consumed.length ≤ 11) (hlt : value < 2 ^ 64) :
      Ends prefixBits consumed rest (.ok (flags, value))
  | truncated (hlength : consumed.length ≤ 11) (hrest : rest = []) :
      Ends prefixBits consumed rest (.error truncated)
  | overflow (hlength : consumed.length ≤ 12) :
      Ends prefixBits consumed rest (.error (streamError "prefixed integer overflows"))

/-- The reader ends behind the integer it read. -/
theorem takeInt_ends {prefixBits : ℕ} (hbits : prefixBits ≤ 8) (buf : List UInt8) :
    ∃ consumed rest answer, takeInt ⟨buf⟩ prefixBits = .ok (answer, ⟨rest⟩) ∧
      buf = consumed ++ rest ∧ Ends prefixBits consumed rest answer := by
  obtain - | ⟨first, buf⟩ := buf
  · exact ⟨[], [], _, rfl, rfl, .truncated (by simp) rfl⟩
  have hfirst : first.toNat < 256 := first.toNat_lt
  have hlt := Nat.mod_lt first.toNat (Nat.two_pow_pos prefixBits)
  rw [takeInt_cons hbits]
  split_ifs with hsmall
  · refine ⟨[first], buf, _, rfl, rfl, .value (.small hsmall) (by simp) ?_⟩
    have := Nat.mod_le first.toNat (2 ^ prefixBits)
    omega
  · have hfull : first.toNat % 2 ^ prefixBits = 2 ^ prefixBits - 1 := by omega
    obtain ⟨groups, rest, answer, hloop, hbuf, hends⟩ :=
      @takeIntLoop_ends (2 ^ prefixBits - 1) [] open_nil (by simp) buf
    rw [List.nil_append] at hbuf
    have hstart : takeIntLoop 0 (2 ^ prefixBits - 1) buf = .ok (answer, ⟨rest⟩) := hloop
    have hconsumed : first :: buf = (first :: groups) ++ rest := congrArg (first :: ·) hbuf
    rw [hfull, hstart, Fallible.ok_bind]
    refine ⟨first :: groups, rest, _, rfl, hconsumed, ?_⟩
    cases hends with
    | value hwhole hfits => exact .value (.long hfull hwhole) (Nat.succ_le_succ hfits.1) hfits.2
    | truncated hlength hrest => exact .truncated (Nat.succ_le_succ hlength) hrest
    | overflow hlength => exact .overflow (Nat.succ_le_succ hlength)

/-- The reader does what `takeInt` does, and moves as far. -/
theorem takeInt_refines {prefixBits : ℕ} (hbits : prefixBits ≤ 8) {buf rest : List UInt8}
    {answer : Except Violation (ℕ × ℕ)} (h : takeInt ⟨buf⟩ prefixBits = .ok (answer, ⟨rest⟩)) :
    Qpack.takeInt prefixBits buf =
      answer.map fun (flags, value) => (flags, value, rest) := by
  obtain - | ⟨first, buf⟩ := buf
  · cases h
    rfl
  rw [takeInt_cons hbits] at h
  rw [Qpack.takeInt_cons]
  split_ifs at h ⊢ with hsmall
  · cases h
    rfl
  · obtain ⟨⟨answer, ⟨rest⟩⟩, hloop, heq⟩ := Fallible.bind_eq_ok.mp h
    cases heq
    rw [takeIntLoop_refines hloop]
    cases answer <;> rfl

/-- **What was written is read back**, and the cursor stands right behind it. -/
theorem takeInt_putInt {prefixBits flags value : ℕ} (hflags : flags * 2 ^ prefixBits < 256)
    (hbits : prefixBits ≤ 8) (hvalue : value < 2 ^ 64) (rest : List UInt8) :
    takeInt ⟨putInt prefixBits flags value ++ rest⟩ prefixBits =
      .ok (.ok (flags, value), ⟨rest⟩) := by
  obtain ⟨consumed, rest', answer, hread, -, -⟩ :=
    takeInt_ends hbits (putInt prefixBits flags value ++ rest)
  have hput := Qpack.takeInt_putInt hflags hbits hvalue rest
  rw [takeInt_refines hbits hread] at hput
  rw [hread]
  cases answer with
  | error violation => cases hput
  | ok r =>
      cases hput
      rfl

end Reader

/-! ### The codec -/

/-- What is written after a full prefix ends where it says. -/
theorem whole_putIntLoop (remaining : ℕ) : Whole GoesOn (putIntLoop remaining) := by
  induction remaining using Nat.strong_induction_on with
  | _ remaining ih =>
      rw [putIntLoop]
      split_ifs with hmore
      · refine (ih (remaining >>> 7) ?_).cons ?_
        · rw [Nat.shiftRight_eq_div_pow]
          omega
        · rw [GoesOn, toNat_group]
          omega
      · refine whole_singleton ?_
        rw [GoesOn, UInt8.toNat_ofNat']
        omega

/-- Seven bits a byte. -/
theorem length_putIntLoop {remaining n : ℕ} (h : remaining < 128 ^ (n + 1)) :
    (putIntLoop remaining).length ≤ n + 1 := by
  induction n generalizing remaining with
  | zero =>
      rw [putIntLoop, if_neg (by omega)]
      rfl
  | succ n ih =>
      rw [putIntLoop]
      split_ifs
      · have hrest : remaining >>> 7 < 128 ^ (n + 1) := by
          rw [Nat.shiftRight_eq_div_pow]
          rw [Nat.pow_succ] at h
          exact Nat.div_lt_of_lt_mul (by omega)
        exact Nat.succ_le_succ (ih hrest)
      · exact Nat.succ_le_succ (Nat.zero_le _)

/-- **The codec of prefixed integers is exact.** Every integer of 64 bits is read back with its
flags, and what follows it is left; and whatever is read, no shift, sum, difference or cast loses
a bit, no more than eleven bytes are moved past, but for a twelfth that is found not to fit, and
a value is returned only if it is what the bytes denote. -/
theorem prefixed_integers_exact {prefixBits : ℕ} (hbits : prefixBits ≤ 8) :
    (∀ value < 2 ^ 64, ∀ flags < 2 ^ (8 - prefixBits), ∀ rest,
      Reader.takeInt ⟨putInt prefixBits flags value ++ rest⟩ prefixBits =
        .ok (.ok (flags, value), ⟨rest⟩)) ∧
    ∀ buf, ∃ consumed rest answer,
      Reader.takeInt ⟨buf⟩ prefixBits = .ok (answer, ⟨rest⟩) ∧ buf = consumed ++ rest ∧
      (consumed.length ≤ 11 ∨ consumed.length = 12 ∧
        answer = .error (streamError "prefixed integer overflows")) ∧
      ∀ flags value, answer = .ok (flags, value) →
        value < 2 ^ 64 ∧ Denotes prefixBits consumed flags value := by
  constructor
  · intro value hvalue flags hflags rest
    refine Reader.takeInt_putInt ?_ hbits hvalue rest
    calc flags * 2 ^ prefixBits < 2 ^ (8 - prefixBits) * 2 ^ prefixBits :=
          Nat.mul_lt_mul_of_pos_right hflags (Nat.two_pow_pos prefixBits)
      _ = 256 := by rw [← Nat.pow_add, Nat.sub_add_cancel hbits]
  · intro buf
    obtain ⟨consumed, rest, answer, hread, hbuf, hends⟩ := Reader.takeInt_ends hbits buf
    refine ⟨consumed, rest, answer, hread, hbuf, ?_⟩
    cases hends with
    | value h hlength hlt =>
        refine ⟨.inl hlength, fun flags value heq => ?_⟩
        cases heq
        exact ⟨hlt, h⟩
    | truncated hlength hrest => exact ⟨.inl hlength, fun flags value heq => by cases heq⟩
    | overflow hlength =>
        refine ⟨?_, fun flags value heq => by cases heq⟩
        obtain h | h := Nat.lt_or_eq_of_le hlength
        · exact .inl (Nat.le_of_lt_succ h)
        · exact .inr ⟨h, rfl⟩

/-- The largest integer of 64 bits in the narrowest prefix, and a byte behind it. -/
theorem prefixed_integers_exact_max :
    Reader.takeInt ⟨putInt 1 127 (2 ^ 64 - 1) ++ [0x2a]⟩ 1 =
      .ok (.ok (127, 2 ^ 64 - 1), ⟨[0x2a]⟩) :=
  (prefixed_integers_exact (show 1 ≤ 8 by decide)).1 (2 ^ 64 - 1) (by decide)
    127 (by decide) [0x2a]

/-- Eleven continuation bytes are moved past before the last of them is found not to fit. -/
theorem twelfth_byte_consumed :
    ¬∀ prefixBits, 1 ≤ prefixBits → prefixBits ≤ 8 → ∀ consumed rest answer,
      Reader.takeInt ⟨consumed ++ rest⟩ prefixBits = .ok (answer, ⟨rest⟩) →
        consumed.length ≤ 11 := by
  intro h
  have hread : Reader.takeInt ⟨(0xff :: List.replicate 10 0x80 ++ [0x00]) ++ [0x2a]⟩ 8 =
      .ok (.error (streamError "prefixed integer overflows"), ⟨[0x2a]⟩) := by
    decide +kernel
  have hle := h 8 (by decide) (by decide) _ _ _ hread
  simp at hle

end Qpack

end Volto
