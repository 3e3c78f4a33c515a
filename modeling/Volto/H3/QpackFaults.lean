import Mathlib.Data.Nat.Bitwise
import Volto.H3.HuffmanCode
import Volto.H3.Qpack

/-!
# The First Fault of a Field Section

What a block of bytes is, read as RFC 9204 has it from its first byte to its last: the fields it
spells, or the first thing that is wrong with it. `SectionReads` says which, rule by rule and
without a word about what is answered. The decoder of `h3/qpack.rs` finds that fault and no other,
and grades it: a fault that leaves the two ends with different ideas of the dynamic table closes
the connection, a section that is larger than what was advertised draws its own answer, and
everything else ends the one request.

## Main results

* `SectionReads.decode_eq`, `exists_sectionReads`: the decoder returns what the block reads as.
* `SectionReads.size_le`: a section that is read fits its bound.
* `first_fault_graded`: the two together, class by class.
-/

namespace Volto

namespace Qpack

/-- What can be wrong with a field section. -/
inductive Fault
  /-- It ends in the middle of an integer, a string literal or its prefix. -/
  | truncated
  /-- An integer does not fit. -/
  | overflow
  /-- A string literal is not the Huffman encoding of anything. -/
  | huffman (literal : List UInt8)
  | requiredInsertCount
  | signBit
  /-- A reference to the dynamic table, relative to its base or past it. -/
  | dynamicReference
  /-- A reference past the end of the static table. -/
  | staticIndex
  /-- The fields so far are larger than what was advertised. -/
  | tooLarge
deriving DecidableEq, Repr

namespace Fault

/-- The faults that close the connection. -/
def closesConnection : Fault → Bool
  | requiredInsertCount | signBit | dynamicReference | staticIndex => true
  | _ => false

/-- The faults that end the request. -/
def endsRequest : Fault → Bool
  | truncated | overflow | huffman _ => true
  | _ => false

/-- The violation a fault is answered with. -/
def violation (maxSectionSize : ℕ) : Fault → Violation
  | truncated => Qpack.truncated
  | overflow => streamError "prefixed integer overflows"
  | huffman literal =>
      match Huffman.decode literal with
      | .error violation => violation
      | .ok _ => Qpack.truncated
  | requiredInsertCount =>
      connectionError "a non-zero Required Insert Count with no dynamic table"
  | signBit => connectionError "a Sign bit of 1 with a zero Required Insert Count"
  | dynamicReference => Qpack.dynamicReference
  | staticIndex => connectionError "static table index out of range"
  | tooLarge => sectionTooLarge maxSectionSize

end Fault

/-! ### Reading in order -/

/-- The number that seven-bit groups spell, the least significant first. -/
def groupsValue : List UInt8 → ℕ
  | [] => 0
  | group :: groups => group.toNat % 128 + 128 * groupsValue groups

/-- An integer of `base` and these groups fits into 64 bits, which ten groups fill. -/
def Fits (base : ℕ) (groups : List UInt8) : Prop :=
  groups.length ≤ 10 ∧ base + groupsValue groups < 2 ^ 64

/-- Whether an integer fits is decided by computing it. -/
instance (base : ℕ) (groups : List UInt8) : Decidable (Fits base groups) :=
  inferInstanceAs (Decidable (_ ∧ _))

/-- The groups of an integer, where some have been read. -/
inductive GroupsRead (base : ℕ) :
    List UInt8 → List UInt8 → Except Fault (ℕ × List UInt8) → Prop
  | truncated (before : List UInt8) : GroupsRead base before [] (.error .truncated)
  | overflow {before rest : List UInt8} {byte : UInt8} (h : ¬Fits base (before ++ [byte])) :
      GroupsRead base before (byte :: rest) (.error .overflow)
  | last {before rest : List UInt8} {byte : UInt8} (h : Fits base (before ++ [byte]))
      (hlast : byte.toNat < 128) :
      GroupsRead base before (byte :: rest) (.ok (base + groupsValue (before ++ [byte]), rest))
  | more {before rest : List UInt8} {byte : UInt8} {r : Except Fault (ℕ × List UInt8)}
      (h : Fits base (before ++ [byte])) (hmore : 128 ≤ byte.toNat)
      (hrest : GroupsRead base (before ++ [byte]) rest r) : GroupsRead base before (byte :: rest) r

/-- An integer in a prefix of some bits: the flags above it, the value and what follows. -/
inductive IntReads (prefixBits : ℕ) : List UInt8 → Except Fault (ℕ × ℕ × List UInt8) → Prop
  | empty : IntReads prefixBits [] (.error .truncated)
  | small {first : UInt8} {rest : List UInt8}
      (h : first.toNat % 2 ^ prefixBits < 2 ^ prefixBits - 1) :
      IntReads prefixBits (first :: rest)
        (.ok (first.toNat / 2 ^ prefixBits, first.toNat % 2 ^ prefixBits, rest))
  | long {first : UInt8} {rest after : List UInt8} {value : ℕ}
      (h : first.toNat % 2 ^ prefixBits = 2 ^ prefixBits - 1)
      (hrest : GroupsRead (2 ^ prefixBits - 1) [] rest (.ok (value, after))) :
      IntReads prefixBits (first :: rest) (.ok (first.toNat / 2 ^ prefixBits, value, after))
  | fault {first : UInt8} {rest : List UInt8} {fault : Fault}
      (h : first.toNat % 2 ^ prefixBits = 2 ^ prefixBits - 1)
      (hrest : GroupsRead (2 ^ prefixBits - 1) [] rest (.error fault)) :
      IntReads prefixBits (first :: rest) (.error fault)

/-- A string literal and what follows. The lowest flag says that it is Huffman-encoded. -/
inductive StringReads (prefixBits : ℕ) (buf : List UInt8) :
    Except Fault (List UInt8 × List UInt8) → Prop
  | noLength {fault : Fault} (h : IntReads prefixBits buf (.error fault)) :
      StringReads prefixBits buf (.error fault)
  | short {flags length : ℕ} {rest : List UInt8}
      (h : IntReads prefixBits buf (.ok (flags, length, rest))) (hshort : rest.length < length) :
      StringReads prefixBits buf (.error .truncated)
  | plain {flags : ℕ} {literal rest : List UInt8}
      (h : IntReads prefixBits buf (.ok (flags, literal.length, literal ++ rest)))
      (hflag : flags % 2 = 0) : StringReads prefixBits buf (.ok (literal, rest))
  | huffman {flags : ℕ} {value rest : List UInt8}
      (h : IntReads prefixBits buf
        (.ok (flags, (Huffman.encode value).length, Huffman.encode value ++ rest)))
      (hflag : flags % 2 = 1) : StringReads prefixBits buf (.ok (value, rest))
  | malformed {flags : ℕ} {literal rest : List UInt8}
      (h : IntReads prefixBits buf (.ok (flags, literal.length, literal ++ rest)))
      (hflag : flags % 2 = 1) (hnone : ∀ value, literal ≠ Huffman.encode value) :
      StringReads prefixBits buf (.error (.huffman literal))

/-- A reference to a table: an index in a prefix of some bits, with the bit that says static right
above them. A dynamic reference is one only once its index was read. -/
inductive ReferenceReads (prefixBits : ℕ) (buf : List UInt8) :
    Except Fault (Field × List UInt8) → Prop
  | noIndex {fault : Fault} (h : IntReads prefixBits buf (.error fault)) :
      ReferenceReads prefixBits buf (.error fault)
  | dynamic {flags index : ℕ} {rest : List UInt8}
      (h : IntReads prefixBits buf (.ok (flags, index, rest))) (hflag : flags % 2 = 0) :
      ReferenceReads prefixBits buf (.error .dynamicReference)
  | outside {flags index : ℕ} {rest : List UInt8}
      (h : IntReads prefixBits buf (.ok (flags, index, rest))) (hflag : flags % 2 = 1)
      (houtside : 99 ≤ index) : ReferenceReads prefixBits buf (.error .staticIndex)
  | static {flags index : ℕ} {rest : List UInt8} {entry : Field}
      (h : IntReads prefixBits buf (.ok (flags, index, rest))) (hflag : flags % 2 = 1)
      (hentry : staticTable[index]? = some entry) :
      ReferenceReads prefixBits buf (.ok (entry, rest))

/-- A field line, by its first byte. -/
inductive LineReads (first : UInt8) (tail : List UInt8) : Except Fault (Field × List UInt8) → Prop
  | indexed {r : Except Fault (Field × List UInt8)} (hfirst : 128 ≤ first.toNat)
      (h : ReferenceReads 6 (first :: tail) r) : LineReads first tail r
  | name {fault : Fault} (hfirst : first.toNat / 64 = 1)
      (h : ReferenceReads 4 (first :: tail) (.error fault)) : LineReads first tail (.error fault)
  | nameValue {fault : Fault} {entry : Field} {rest : List UInt8} (hfirst : first.toNat / 64 = 1)
      (h : ReferenceReads 4 (first :: tail) (.ok (entry, rest)))
      (hvalue : StringReads 7 rest (.error fault)) : LineReads first tail (.error fault)
  | named {entry : Field} {rest value after : List UInt8} (hfirst : first.toNat / 64 = 1)
      (h : ReferenceReads 4 (first :: tail) (.ok (entry, rest)))
      (hvalue : StringReads 7 rest (.ok (value, after))) :
      LineReads first tail (.ok (⟨entry.name, value⟩, after))
  | literalName {fault : Fault} (hfirst : first.toNat / 32 = 1)
      (h : StringReads 3 (first :: tail) (.error fault)) : LineReads first tail (.error fault)
  | literalValue {fault : Fault} {name rest : List UInt8} (hfirst : first.toNat / 32 = 1)
      (h : StringReads 3 (first :: tail) (.ok (name, rest)))
      (hvalue : StringReads 7 rest (.error fault)) : LineReads first tail (.error fault)
  | literal {name rest value after : List UInt8} (hfirst : first.toNat / 32 = 1)
      (h : StringReads 3 (first :: tail) (.ok (name, rest)))
      (hvalue : StringReads 7 rest (.ok (value, after))) :
      LineReads first tail (.ok (⟨name, value⟩, after))
  | postBase (hfirst : first.toNat < 32) : LineReads first tail (.error .dynamicReference)

/-- The field lines of a section, where fields of some size have been read. -/
inductive LinesRead (maxSectionSize : ℕ) :
    ℕ → List UInt8 → Except Fault (List Field) → Prop
  | done (size : ℕ) : LinesRead maxSectionSize size [] (.ok [])
  | line {size : ℕ} {first : UInt8} {tail : List UInt8} {fault : Fault}
      (h : LineReads first tail (.error fault)) :
      LinesRead maxSectionSize size (first :: tail) (.error fault)
  | tooLarge {size : ℕ} {first : UInt8} {tail rest : List UInt8} {field : Field}
      (h : LineReads first tail (.ok (field, rest))) (hlarge : maxSectionSize < size + field.size) :
      LinesRead maxSectionSize size (first :: tail) (.error .tooLarge)
  | later {size : ℕ} {first : UInt8} {tail rest : List UInt8} {field : Field} {fault : Fault}
      (h : LineReads first tail (.ok (field, rest))) (hfits : size + field.size ≤ maxSectionSize)
      (hrest : LinesRead maxSectionSize (size + field.size) rest (.error fault)) :
      LinesRead maxSectionSize size (first :: tail) (.error fault)
  | next {size : ℕ} {first : UInt8} {tail rest : List UInt8} {field : Field} {fields : List Field}
      (h : LineReads first tail (.ok (field, rest))) (hfits : size + field.size ≤ maxSectionSize)
      (hrest : LinesRead maxSectionSize (size + field.size) rest (.ok fields)) :
      LinesRead maxSectionSize size (first :: tail) (.ok (field :: fields))

/-- **What a block reads as**: the fields it spells, or its first fault. -/
inductive SectionReads (maxSectionSize : ℕ) (block : List UInt8) :
    Except Fault (List Field) → Prop
  | insertCount {fault : Fault} (h : IntReads 8 block (.error fault)) :
      SectionReads maxSectionSize block (.error fault)
  | inserted {flags insertCount : ℕ} {rest : List UInt8}
      (h : IntReads 8 block (.ok (flags, insertCount, rest))) (hcount : insertCount ≠ 0) :
      SectionReads maxSectionSize block (.error .requiredInsertCount)
  | base {flags : ℕ} {rest : List UInt8} {fault : Fault}
      (h : IntReads 8 block (.ok (flags, 0, rest))) (hbase : IntReads 7 rest (.error fault)) :
      SectionReads maxSectionSize block (.error fault)
  | sign {flags sign delta : ℕ} {rest lines : List UInt8}
      (h : IntReads 8 block (.ok (flags, 0, rest)))
      (hbase : IntReads 7 rest (.ok (sign, delta, lines))) (hsign : sign % 2 = 1) :
      SectionReads maxSectionSize block (.error .signBit)
  | lines {flags sign delta : ℕ} {rest lines : List UInt8} {r : Except Fault (List Field)}
      (h : IntReads 8 block (.ok (flags, 0, rest)))
      (hbase : IntReads 7 rest (.ok (sign, delta, lines))) (hsign : sign % 2 = 0)
      (hlines : LinesRead maxSectionSize 0 lines r) : SectionReads maxSectionSize block r

/-! ### The decoder follows -/

/-- What a reading is answered with. -/
def answer {α : Type} (maxSectionSize : ℕ) : Except Fault α → Except Violation α
  | .ok a => .ok a
  | .error fault => .error (fault.violation maxSectionSize)

/-- A reading without a fault is answered by its value. -/
@[simp] theorem answer_ok {α : Type} (maxSectionSize : ℕ) (a : α) :
    answer maxSectionSize (.ok a : Except Fault α) = .ok a := rfl

/-- A fault is answered by the violation it stands for. -/
@[simp] theorem answer_error {α : Type} (maxSectionSize : ℕ) (fault : Fault) :
    answer maxSectionSize (.error fault : Except Fault α) =
      .error (fault.violation maxSectionSize) := rfl

section

variable {base prefixBits : ℕ} {before buf tail : List UInt8} {first : UInt8}

/-- A further group adds its seven bits above those read. -/
theorem groupsValue_concat (groups : List UInt8) (group : UInt8) :
    groupsValue (groups ++ [group]) =
      groupsValue groups + group.toNat % 128 * 2 ^ (7 * groups.length) := by
  induction groups with
  | nil => simp [groupsValue]
  | cons head groups ih =>
      have hpow : (2 : ℕ) ^ (7 * (groups.length + 1)) = 128 * 2 ^ (7 * groups.length) := by
        rw [Nat.mul_succ, Nat.pow_add, Nat.mul_comm]
      rw [List.cons_append, groupsValue, ih, groupsValue, List.length_cons, hpow]
      ring

/-- A group that does not fit is not added: it is shifted out of 64 bits, or the sum is past
them. -/
theorem addGroup_of_ge {shift value group : ℕ} (h : 2 ^ 64 ≤ value + group * 2 ^ shift) :
    addGroup shift value group = none := by
  rw [addGroup]
  split_ifs with hshift
  · dsimp only
    split_ifs with hback hsum
    · exfalso
      rw [Nat.shiftLeft_eq, Nat.shiftRight_eq_div_pow] at hback
      have hle : group * 2 ^ shift ≤ group * 2 ^ shift % 2 ^ 64 := by
        calc group * 2 ^ shift = group * 2 ^ shift % 2 ^ 64 / 2 ^ shift * 2 ^ shift := by rw [hback]
          _ ≤ group * 2 ^ shift % 2 ^ 64 := Nat.div_mul_le_self _ _
      rw [Nat.shiftLeft_eq] at hsum
      omega
    · rfl
    · rfl
  · rfl

/-- The next group is added exactly when the integer still fits. -/
theorem addGroup_eq (base : ℕ) (before : List UInt8) (byte : UInt8) :
    addGroup (7 * before.length) (base + groupsValue before) (byte.toNat &&& 0x7f) =
      if Fits base (before ++ [byte]) then some (base + groupsValue (before ++ [byte]))
      else none := by
  have hvalue : base + groupsValue (before ++ [byte]) =
      base + groupsValue before + byte.toNat % 128 * 2 ^ (7 * before.length) := by
    rw [groupsValue_concat, Nat.add_assoc]
  rw [and_seven_bits]
  split_ifs with hfits
  · obtain ⟨hlength, hlt⟩ := hfits
    rw [List.length_append, List.length_singleton] at hlength
    rw [hvalue] at hlt ⊢
    exact addGroup_of_lt (by omega) hlt
  · obtain hlong | hlarge : 64 ≤ 7 * before.length ∨
        2 ^ 64 ≤ base + groupsValue (before ++ [byte]) := by
      rw [Fits, List.length_append, List.length_singleton] at hfits
      omega
    · rw [addGroup, if_neg (Nat.not_lt.mpr hlong)]
    · exact addGroup_of_ge (hvalue ▸ hlarge)

/-- A continuation byte by its top bit. -/
theorem and_top_bit_iff (byte : UInt8) : byte.toNat &&& 0x80 = 0 ↔ byte.toNat < 128 := by
  have hlt : byte.toNat < 256 := byte.toNat_lt
  obtain h | h := Nat.lt_or_ge byte.toNat 128
  · exact iff_of_true (and_top_bit_of_lt h) h
  · exact iff_of_false (and_top_bit_of_ge h hlt) (Nat.not_lt.mpr h)

/-- The loop over the groups of an integer computes what the reading says. -/
theorem GroupsRead.takeIntLoop_eq (maxSectionSize : ℕ) {r : Except Fault (ℕ × List UInt8)}
    (h : GroupsRead base before buf r) :
    takeIntLoop (7 * before.length) (base + groupsValue before) buf = answer maxSectionSize r := by
  induction h with
  | truncated before => rfl
  | overflow h => rw [takeIntLoop, addGroup_eq, if_neg h]; rfl
  | last h hlast =>
      rw [takeIntLoop, addGroup_eq, if_pos h]
      exact if_pos ((and_top_bit_iff _).mpr hlast)
  | more h hmore hrest ih =>
      rw [takeIntLoop, addGroup_eq, if_pos h]
      rw [List.length_append, List.length_singleton] at ih
      exact (if_neg (mt (and_top_bit_iff _).mp (Nat.not_lt.mpr hmore))).trans ih

/-- Every buffer has a reading as groups. -/
theorem exists_groupsRead (base : ℕ) (before buf : List UInt8) :
    ∃ r, GroupsRead base before buf r := by
  induction buf generalizing before with
  | nil => exact ⟨_, .truncated before⟩
  | cons byte rest ih =>
      by_cases hfits : Fits base (before ++ [byte])
      · obtain hlast | hmore := Nat.lt_or_ge byte.toNat 128
        · exact ⟨_, .last hfits hlast⟩
        · obtain ⟨r, hr⟩ := ih (before ++ [byte])
          exact ⟨r, .more hfits hmore hr⟩
      · exact ⟨_, .overflow hfits⟩

/-- The first byte of an integer, by its prefix. -/
theorem takeInt_cons (prefixBits : ℕ) (first : UInt8) (rest : List UInt8) :
    takeInt prefixBits (first :: rest) =
      if first.toNat % 2 ^ prefixBits < 2 ^ prefixBits - 1 then
        .ok (first.toNat / 2 ^ prefixBits, first.toNat % 2 ^ prefixBits, rest)
      else (takeIntLoop 0 (first.toNat % 2 ^ prefixBits) rest).map fun (value, rest) =>
        (first.toNat / 2 ^ prefixBits, value, rest) := by
  simp only [takeInt, prefixMask, Nat.and_two_pow_sub_one_eq_mod, Nat.shiftRight_eq_div_pow]

/-- `takeInt` computes what the reading of the integer says. -/
theorem IntReads.takeInt_eq (maxSectionSize : ℕ) {r : Except Fault (ℕ × ℕ × List UInt8)}
    (h : IntReads prefixBits buf r) :
    takeInt prefixBits buf = answer maxSectionSize r := by
  cases h with
  | empty => rfl
  | small h => rw [takeInt_cons, if_pos h]; rfl
  | long h hrest =>
      have hloop := hrest.takeIntLoop_eq maxSectionSize
      rw [takeInt_cons, if_neg (by omega), h]
      exact congrArg (Except.map _) hloop
  | fault h hrest =>
      have hloop := hrest.takeIntLoop_eq maxSectionSize
      rw [takeInt_cons, if_neg (by omega), h]
      exact congrArg (Except.map _) hloop

/-- Every buffer has a reading as an integer. -/
theorem exists_intReads (prefixBits : ℕ) (buf : List UInt8) : ∃ r, IntReads prefixBits buf r := by
  obtain - | ⟨first, rest⟩ := buf
  · exact ⟨_, .empty⟩
  have hlt := Nat.mod_lt first.toNat (Nat.two_pow_pos prefixBits)
  obtain h | h : first.toNat % 2 ^ prefixBits < 2 ^ prefixBits - 1 ∨
      first.toNat % 2 ^ prefixBits = 2 ^ prefixBits - 1 := by omega
  · exact ⟨_, .small h⟩
  · obtain ⟨fault | ⟨value, after⟩, hrest⟩ := exists_groupsRead (2 ^ prefixBits - 1) [] rest
    · exact ⟨_, .fault h hrest⟩
    · exact ⟨_, .long h hrest⟩

/-- The flags are what is above the prefix of the first byte. -/
theorem IntReads.flags_eq {flags value : ℕ} {rest : List UInt8}
    (h : IntReads prefixBits (first :: tail) (.ok (flags, value, rest))) :
    flags = first.toNat / 2 ^ prefixBits := by
  cases h with
  | small h => rfl
  | long h hrest => rfl

/-! ### String literals and references -/

/-- `takeString` computes what the reading of the string says. -/
theorem StringReads.takeString_eq (maxSectionSize : ℕ) {r : Except Fault (List UInt8 × List UInt8)}
    (h : StringReads prefixBits buf r) :
    takeString prefixBits buf = answer maxSectionSize r := by
  cases h with
  | noLength h =>
      rw [takeString, h.takeInt_eq maxSectionSize]
      rfl
  | short h hshort =>
      rw [takeString, h.takeInt_eq maxSectionSize]
      exact if_pos hshort
  | plain h hflag =>
      rw [takeString, h.takeInt_eq maxSectionSize]
      simp [hflag, Nat.and_one_is_mod]
  | @huffman flags value rest h hflag =>
      have hdecode : Huffman.decode (Huffman.encode value) = .ok value :=
        Huffman.decode_eq_ok_iff.mpr rfl
      rw [takeString, h.takeInt_eq maxSectionSize]
      simp [hflag, Nat.and_one_is_mod, hdecode]
  | @malformed flags literal rest h hflag hnone =>
      rw [takeString, h.takeInt_eq maxSectionSize]
      have hdecode : ∃ violation, Huffman.decode literal = .error violation := by
        rcases hdecode : Huffman.decode literal with violation | value
        · exact ⟨violation, rfl⟩
        · exact absurd (Huffman.decode_eq_ok_iff.mp hdecode) (hnone value)
      obtain ⟨violation, hdecode⟩ := hdecode
      simp [hflag, Nat.and_one_is_mod, hdecode, Fault.violation]

/-- Every buffer has a reading as a string. -/
theorem exists_stringReads (prefixBits : ℕ) (buf : List UInt8) :
    ∃ r, StringReads prefixBits buf r := by
  obtain ⟨fault | ⟨flags, length, rest⟩, h⟩ := exists_intReads prefixBits buf
  · exact ⟨_, .noLength h⟩
  obtain hshort | hlong := Nat.lt_or_ge rest.length length
  · exact ⟨_, .short h hshort⟩
  -- the literal is what the length says, and what follows it is the rest
  have hlength : (rest.take length).length = length := List.length_take_of_le hlong
  rw [← List.take_append_drop length rest] at h
  nth_rewrite 1 [← hlength] at h
  obtain hflag | hflag := Nat.mod_two_eq_zero_or_one flags
  · exact ⟨_, .plain h hflag⟩
  by_cases hvalue : ∃ value, rest.take length = Huffman.encode value
  · obtain ⟨value, hvalue⟩ := hvalue
    rw [hvalue] at h
    exact ⟨_, .huffman h hflag⟩
  · exact ⟨_, .malformed h hflag (not_exists.mp hvalue)⟩

/-- The bit above a prefix. -/
theorem and_two_pow_eq_zero_iff (n i : ℕ) : n &&& 2 ^ i = 0 ↔ n / 2 ^ i % 2 = 0 := by
  have hpos := Nat.two_pow_pos i
  rw [Nat.and_two_pow, Nat.testBit_eq_decide_div_mod_eq]
  obtain h | h := Nat.mod_two_eq_zero_or_one (n / 2 ^ i) <;> simp [h]

/-- A reference is looked up, whatever is done with its entry. -/
theorem ReferenceReads.bind_eq (maxSectionSize : ℕ) {α : Type}
    {r : Except Fault (Field × List UInt8)} (h : ReferenceReads prefixBits (first :: tail) r)
    (k : Field → List UInt8 → Except Violation α) :
    (do
      let (_, index, buf) ← takeInt prefixBits (first :: tail)
      if first.toNat &&& 2 ^ prefixBits = 0 then
        .error dynamicReference
      else
        let entry ← staticEntry index
        k entry buf) =
      answer maxSectionSize r >>= fun (entry, rest) => k entry rest := by
  cases h with
  | noIndex h =>
      rw [h.takeInt_eq maxSectionSize]
      rfl
  | dynamic h hflag =>
      rw [h.flags_eq] at hflag
      rw [h.takeInt_eq maxSectionSize]
      exact if_pos ((and_two_pow_eq_zero_iff _ _).mpr hflag)
  | @outside flags index rest h hflag houtside =>
      have hentry : staticTable[index]? = none := by
        rw [List.getElem?_eq_none_iff, length_staticTable]
        exact houtside
      rw [h.flags_eq] at hflag
      rw [h.takeInt_eq maxSectionSize]
      refine (if_neg (mt (and_two_pow_eq_zero_iff _ _).mp (by omega))).trans ?_
      rw [staticEntry, hentry]
      rfl
  | static h hflag hentry =>
      rw [h.flags_eq] at hflag
      rw [h.takeInt_eq maxSectionSize]
      refine (if_neg (mt (and_two_pow_eq_zero_iff _ _).mp (by omega))).trans ?_
      rw [staticEntry, hentry]
      rfl

/-- Every buffer has a reading as a reference. -/
theorem exists_referenceReads (prefixBits : ℕ) (buf : List UInt8) :
    ∃ r, ReferenceReads prefixBits buf r := by
  obtain ⟨fault | ⟨flags, index, rest⟩, h⟩ := exists_intReads prefixBits buf
  · exact ⟨_, .noIndex h⟩
  obtain hflag | hflag := Nat.mod_two_eq_zero_or_one flags
  · exact ⟨_, .dynamic h hflag⟩
  obtain hlt | hge := Nat.lt_or_ge index 99
  · rw [← length_staticTable] at hlt
    exact ⟨_, .static h hflag (List.getElem?_eq_getElem hlt)⟩
  · exact ⟨_, .outside h hflag hge⟩

/-! ### Field lines -/

/-- The five representations, by the first byte. -/
theorem first_cases (first : UInt8) :
    (128 ≤ first.toNat ∧ first.toNat &&& 0x80 ≠ 0) ∨
    (first.toNat / 64 = 1 ∧ first.toNat &&& 0x80 = 0 ∧ first.toNat &&& 0xc0 = 0x40) ∨
    (first.toNat / 32 = 1 ∧ first.toNat &&& 0x80 = 0 ∧ first.toNat &&& 0xc0 ≠ 0x40 ∧
      first.toNat &&& 0xe0 = 0x20) ∨
    (first.toNat < 32 ∧ first.toNat &&& 0x80 = 0 ∧ first.toNat &&& 0xc0 ≠ 0x40 ∧
      first.toNat &&& 0xe0 ≠ 0x20) := by
  have hall : ∀ first : UInt8,
      (128 ≤ first.toNat ∧ first.toNat &&& 0x80 ≠ 0) ∨
      (first.toNat / 64 = 1 ∧ first.toNat &&& 0x80 = 0 ∧ first.toNat &&& 0xc0 = 0x40) ∨
      (first.toNat / 32 = 1 ∧ first.toNat &&& 0x80 = 0 ∧ first.toNat &&& 0xc0 ≠ 0x40 ∧
        first.toNat &&& 0xe0 = 0x20) ∨
      (first.toNat < 32 ∧ first.toNat &&& 0x80 = 0 ∧ first.toNat &&& 0xc0 ≠ 0x40 ∧
        first.toNat &&& 0xe0 ≠ 0x20) := by
    exact forall_byte (by decide +kernel)
  exact hall first

/-- A first byte `1xxxxxxx` starts an indexed line. -/
theorem takeLine_of_indexed (hfirst : 128 ≤ first.toNat) (buf : List UInt8) :
    takeLine first buf = (do
      let (_, index, buf) ← takeInt 6 buf
      if first.toNat &&& 2 ^ 6 = 0 then
        .error dynamicReference
      else
        let entry ← staticEntry index
        .ok (entry, buf)) := by
  obtain ⟨-, hbit⟩ | ⟨h, -⟩ | ⟨h, -⟩ | ⟨h, -⟩ := first_cases first
  · rw [takeLine, if_pos hbit]
    rfl
  all_goals omega

/-- What is done with the entry a line takes its name from. -/
def valueOf (entry : Field) (buf : List UInt8) : Except Violation (Field × List UInt8) := do
  let (value, buf) ← takeString 7 buf
  .ok (⟨entry.name, value⟩, buf)

/-- A first byte `01xxxxxx` starts a literal with a name reference. -/
theorem takeLine_of_named (hfirst : first.toNat / 64 = 1) (buf : List UInt8) :
    takeLine first buf = (do
      let (_, index, buf) ← takeInt 4 buf
      if first.toNat &&& 2 ^ 4 = 0 then
        .error dynamicReference
      else
        let entry ← staticEntry index
        valueOf entry buf) := by
  obtain ⟨h, -⟩ | ⟨-, hbit, hname⟩ | ⟨h, -⟩ | ⟨h, -⟩ := first_cases first
  · omega
  · rw [takeLine, if_neg (not_not.mpr hbit), if_pos hname]
    rfl
  · omega
  · omega

/-- A first byte `001xxxxx` starts a literal with a literal name. -/
theorem takeLine_of_literal (hfirst : first.toNat / 32 = 1) (buf : List UInt8) :
    takeLine first buf = (do
      let (name, buf) ← takeString 3 buf
      let (value, buf) ← takeString 7 buf
      .ok (⟨name, value⟩, buf)) := by
  obtain ⟨h, -⟩ | ⟨h, -⟩ | ⟨-, hbit, hname, hliteral⟩ | ⟨h, -⟩ := first_cases first
  · omega
  · omega
  · rw [takeLine, if_neg (not_not.mpr hbit), if_neg hname, if_pos hliteral]
  · omega

/-- A first byte `000xxxxx` starts a line after the base, which only the dynamic table has. -/
theorem takeLine_of_postBase (hfirst : first.toNat < 32) (buf : List UInt8) :
    takeLine first buf = .error dynamicReference := by
  obtain ⟨h, -⟩ | ⟨h, -⟩ | ⟨h, -⟩ | ⟨-, hbit, hname, hliteral⟩ := first_cases first
  · omega
  · omega
  · omega
  · rw [takeLine, if_neg (not_not.mpr hbit), if_neg hname, if_neg hliteral]

/-- `takeLine` computes what the reading of the line says. -/
theorem LineReads.takeLine_eq (maxSectionSize : ℕ) {r : Except Fault (Field × List UInt8)}
    (h : LineReads first tail r) : takeLine first (first :: tail) = answer maxSectionSize r := by
  cases h with
  | indexed hfirst h =>
      rw [takeLine_of_indexed hfirst]
      refine (h.bind_eq maxSectionSize fun entry rest => .ok (entry, rest)).trans ?_
      cases r <;> rfl
  | name hfirst h =>
      rw [takeLine_of_named hfirst]
      exact h.bind_eq maxSectionSize valueOf
  | nameValue hfirst h hvalue =>
      rw [takeLine_of_named hfirst]
      refine (h.bind_eq maxSectionSize valueOf).trans ?_
      simp only [answer_ok, Fallible.ok_bind, valueOf, hvalue.takeString_eq maxSectionSize,
        answer_error, Fallible.error_bind]
  | named hfirst h hvalue =>
      rw [takeLine_of_named hfirst]
      refine (h.bind_eq maxSectionSize valueOf).trans ?_
      simp only [answer_ok, Fallible.ok_bind, valueOf, hvalue.takeString_eq maxSectionSize]
  | literalName hfirst h =>
      rw [takeLine_of_literal hfirst, h.takeString_eq maxSectionSize]
      rfl
  | literalValue hfirst h hvalue =>
      rw [takeLine_of_literal hfirst, h.takeString_eq maxSectionSize]
      simp only [answer_ok, Fallible.ok_bind, hvalue.takeString_eq maxSectionSize, answer_error,
        Fallible.error_bind]
  | literal hfirst h hvalue =>
      rw [takeLine_of_literal hfirst, h.takeString_eq maxSectionSize]
      simp only [answer_ok, Fallible.ok_bind, hvalue.takeString_eq maxSectionSize]
  | postBase hfirst => exact takeLine_of_postBase hfirst _

/-- Every line has a reading. -/
theorem exists_lineReads (first : UInt8) (tail : List UInt8) : ∃ r, LineReads first tail r := by
  obtain ⟨hfirst, -⟩ | ⟨hfirst, -⟩ | ⟨hfirst, -⟩ | ⟨hfirst, -⟩ := first_cases first
  · obtain ⟨r, h⟩ := exists_referenceReads 6 (first :: tail)
    exact ⟨r, .indexed hfirst h⟩
  · obtain ⟨fault | ⟨entry, rest⟩, h⟩ := exists_referenceReads 4 (first :: tail)
    · exact ⟨_, .name hfirst h⟩
    obtain ⟨fault | ⟨value, after⟩, hvalue⟩ := exists_stringReads 7 rest
    · exact ⟨_, .nameValue hfirst h hvalue⟩
    · exact ⟨_, .named hfirst h hvalue⟩
  · obtain ⟨fault | ⟨name, rest⟩, h⟩ := exists_stringReads 3 (first :: tail)
    · exact ⟨_, .literalName hfirst h⟩
    obtain ⟨fault | ⟨value, after⟩, hvalue⟩ := exists_stringReads 7 rest
    · exact ⟨_, .literalValue hfirst h hvalue⟩
    · exact ⟨_, .literal hfirst h hvalue⟩
  · exact ⟨_, .postBase hfirst⟩

/-! ### Sections -/

/-- The loop over the lines computes what the reading says, after the fields so far. -/
theorem LinesRead.decodeLines_eq {maxSectionSize size : ℕ} {r : Except Fault (List Field)}
    (h : LinesRead maxSectionSize size buf r) (fields : List Field) :
    decodeLines maxSectionSize size fields buf = (answer maxSectionSize r).map (fields ++ ·) := by
  induction h generalizing fields with
  | done size =>
      rw [decodeLines, answer_ok, Except.map, List.append_nil]
  | line h =>
      rw [decodeLines, h.takeLine_eq maxSectionSize]
      rfl
  | tooLarge h hlarge =>
      rw [decodeLines, h.takeLine_eq maxSectionSize]
      exact if_pos hlarge
  | later h hfits hrest ih =>
      rw [decodeLines, h.takeLine_eq maxSectionSize]
      exact (if_neg (Nat.not_lt.mpr hfits)).trans (ih _)
  | @next size first tail rest field later h hfits hrest ih =>
      rw [decodeLines, h.takeLine_eq maxSectionSize]
      refine (if_neg (Nat.not_lt.mpr hfits)).trans ((ih _).trans ?_)
      rw [answer_ok, answer_ok, Except.map, Except.map, List.append_assoc, List.singleton_append]

/-- Every line that is read is shorter than what it was read from, so the lines end. -/
theorem exists_linesRead (maxSectionSize size : ℕ) (buf : List UInt8) :
    ∃ r, LinesRead maxSectionSize size buf r := by
  induction hn : buf.length using Nat.strong_induction_on generalizing size buf with
  | _ n ih =>
      subst hn
      obtain - | ⟨first, tail⟩ := buf
      · exact ⟨_, .done size⟩
      obtain ⟨fault | ⟨field, rest⟩, h⟩ := exists_lineReads first tail
      · exact ⟨_, .line h⟩
      obtain hfits | hlarge := le_or_gt (size + field.size) maxSectionSize
      · have hshorter := takeLine_length (h.takeLine_eq maxSectionSize)
        obtain ⟨fault | fields, hrest⟩ := ih _ hshorter (size + field.size) rest rfl
        · exact ⟨_, .later h hfits hrest⟩
        · exact ⟨_, .next h hfits hrest⟩
      · exact ⟨_, .tooLarge h hlarge⟩

/-- The running size stays within the bound. -/
theorem LinesRead.size_le {maxSectionSize size : ℕ} {fields : List Field}
    (h : LinesRead maxSectionSize size buf (.ok fields)) (hsize : size ≤ maxSectionSize) :
    size + sectionSize fields ≤ maxSectionSize := by
  generalize hr : (Except.ok fields : Except Fault (List Field)) = r at h
  induction h generalizing fields with
  | done size =>
      cases hr
      exact hsize
  | line h => cases hr
  | tooLarge h hlarge => cases hr
  | later h hfits hrest ih => cases hr
  | @next size first tail rest field later h hfits hrest ih =>
      cases hr
      have hrest := ih hfits rfl
      rw [sectionSize, List.map_cons, List.sum_cons, ← Nat.add_assoc]
      exact hrest

/-- **The decoder returns what a block reads as**, graded. -/
theorem SectionReads.decode_eq {maxSectionSize : ℕ} {block : List UInt8}
    {r : Except Fault (List Field)} (h : SectionReads maxSectionSize block r) :
    decode block maxSectionSize = answer maxSectionSize r := by
  cases h with
  | insertCount h =>
      rw [decode, h.takeInt_eq maxSectionSize]
      rfl
  | inserted h hcount =>
      rw [decode, h.takeInt_eq maxSectionSize]
      exact if_pos hcount
  | base h hbase =>
      rw [decode, h.takeInt_eq maxSectionSize]
      simp only [answer_ok, Fallible.ok_bind, ne_eq, not_true_eq_false, if_false,
        hbase.takeInt_eq maxSectionSize, answer_error, Fallible.error_bind]
  | sign h hbase hsign =>
      rw [decode, h.takeInt_eq maxSectionSize]
      simp only [answer_ok, Fallible.ok_bind, ne_eq, not_true_eq_false, if_false,
        hbase.takeInt_eq maxSectionSize, Nat.and_one_is_mod, hsign, if_true]
      rfl
  | lines h hbase hsign hlines =>
      rw [decode, h.takeInt_eq maxSectionSize]
      simp only [answer_ok, Fallible.ok_bind, ne_eq, not_true_eq_false, if_false,
        hbase.takeInt_eq maxSectionSize, Nat.and_one_is_mod, hsign, Nat.zero_ne_one]
      rw [hlines.decodeLines_eq []]
      cases r <;> rfl

/-- Every block has a reading as a section. -/
theorem exists_sectionReads (maxSectionSize : ℕ) (block : List UInt8) :
    ∃ r, SectionReads maxSectionSize block r := by
  obtain ⟨fault | ⟨flags, insertCount, rest⟩, h⟩ := exists_intReads 8 block
  · exact ⟨_, .insertCount h⟩
  by_cases hcount : insertCount = 0
  · subst hcount
    obtain ⟨fault | ⟨sign, delta, lines⟩, hbase⟩ := exists_intReads 7 rest
    · exact ⟨_, .base h hbase⟩
    obtain hsign | hsign := Nat.mod_two_eq_zero_or_one sign
    · obtain ⟨r, hlines⟩ := exists_linesRead maxSectionSize 0 lines
      exact ⟨r, .lines h hbase hsign hlines⟩
    · exact ⟨_, .sign h hbase hsign⟩
  · exact ⟨_, .inserted h hcount⟩

end

/-! ### Grading -/

/-- A string literal that decodes badly is answered on its stream. -/
theorem huffman_violation (maxSectionSize : ℕ) (literal : List UInt8) :
    ∃ detail, (Fault.huffman literal).violation maxSectionSize = streamError detail := by
  rw [Fault.violation]
  split
  next violation hdecode => exact Huffman.decode_failsIn literal violation hdecode
  next => exact ⟨_, rfl⟩

/-- `decode` gives the fields exactly if the block reads as them. -/
theorem decode_ok_iff {maxSectionSize : ℕ} {block : List UInt8} {fields : List Field} :
    decode block maxSectionSize = .ok fields ↔ SectionReads maxSectionSize block (.ok fields) := by
  constructor
  · intro hdecode
    obtain ⟨fault | fields, h⟩ := exists_sectionReads maxSectionSize block
    · rw [h.decode_eq] at hdecode
      cases hdecode
    · rw [h.decode_eq] at hdecode
      cases hdecode
      exact h
  · intro h
    exact h.decode_eq

/-- **A section that is read fits its bound.** -/
theorem SectionReads.size_le {maxSectionSize : ℕ} {block : List UInt8} {fields : List Field}
    (h : SectionReads maxSectionSize block (.ok fields)) :
    sectionSize fields ≤ maxSectionSize := by
  cases h with
  | lines h hbase hsign hlines =>
      have hle := hlines.size_le (Nat.zero_le _)
      rwa [Nat.zero_add] at hle

/-- `decode` fails exactly with the violation of the fault the block reads as. -/
theorem decode_error_iff {maxSectionSize : ℕ} {block : List UInt8} (P : Violation → Prop) :
    (∃ violation, decode block maxSectionSize = .error violation ∧ P violation) ↔
      ∃ fault : Fault, P (fault.violation maxSectionSize) ∧
        SectionReads maxSectionSize block (.error fault) := by
  constructor
  · rintro ⟨violation, hdecode, hviolation⟩
    obtain ⟨fault | fields, h⟩ := exists_sectionReads maxSectionSize block
    · rw [h.decode_eq, answer_error, Except.error.injEq] at hdecode
      exact ⟨fault, hdecode ▸ hviolation, h⟩
    · rw [h.decode_eq] at hdecode
      cases hdecode
  · rintro ⟨fault, hviolation, h⟩
    exact ⟨_, h.decode_eq, hviolation⟩

/-- The code of a fault's violation, whether it is one of the connection and whether it is one of
the section's size. -/
theorem violation_class (maxSectionSize : ℕ) (fault : Fault) :
    let violation := fault.violation maxSectionSize
    (violation.code, violation.isConnectionError, violation.isFieldSectionTooLarge) =
      if fault.closesConnection then (Code.qpackDecompressionFailed, true, false)
      else if fault.endsRequest then (Code.qpackDecompressionFailed, false, false)
      else (Code.h3ExcessiveLoad, false, true) := by
  cases fault with
  | huffman literal =>
      obtain ⟨detail, h⟩ := huffman_violation maxSectionSize literal
      rw [h]
      rfl
  | _ => rfl

/-- A fault is in exactly one of the three classes. -/
theorem Fault.class_cases (fault : Fault) :
    fault.closesConnection = true ∧ fault.endsRequest = false ∧ fault ≠ .tooLarge ∨
      fault.closesConnection = false ∧ fault.endsRequest = true ∧ fault ≠ .tooLarge ∨
      fault.closesConnection = false ∧ fault.endsRequest = false ∧ fault = .tooLarge := by
  cases fault <;> simp [closesConnection, endsRequest]

/-- The faults that close the connection are answered with its class of the code. -/
theorem closesConnection_iff (maxSectionSize : ℕ) (fault : Fault) :
    (fault.violation maxSectionSize).code = Code.qpackDecompressionFailed ∧
      (fault.violation maxSectionSize).isConnectionError = true ↔
    fault.closesConnection = true := by
  have hclass := violation_class maxSectionSize fault
  grind

/-- The faults that end the request are answered with the other class of the same code. -/
theorem endsRequest_iff (maxSectionSize : ℕ) (fault : Fault) :
    (fault.violation maxSectionSize).code = Code.qpackDecompressionFailed ∧
      (fault.violation maxSectionSize).isConnectionError = false ↔
    fault.endsRequest = true := by
  have hclass := violation_class maxSectionSize fault
  have hcode : Code.h3ExcessiveLoad ≠ Code.qpackDecompressionFailed := by decide
  grind [fault.class_cases]

/-- Only a section that is too large is answered with a 431. -/
theorem eq_tooLarge_iff (maxSectionSize : ℕ) (fault : Fault) :
    (fault.violation maxSectionSize).isFieldSectionTooLarge = true ↔ fault = .tooLarge := by
  have hclass := violation_class maxSectionSize fault
  grind [fault.class_cases]

/-- What is owed for one block and one bound. -/
structure Graded (maxSectionSize : ℕ) (block : List UInt8) : Prop where
  /-- The block reads as fields or as a first fault. -/
  reads : ∃ r, SectionReads maxSectionSize block r
  /-- Whatever it reads as decides what is returned. -/
  answered (r : Except Fault (List Field)) (h : SectionReads maxSectionSize block r) :
    decode block maxSectionSize = answer maxSectionSize r
  /-- The fields that are returned are those the block spells. -/
  fields_iff (fields : List Field) :
    decode block maxSectionSize = .ok fields ↔ SectionReads maxSectionSize block (.ok fields)
  /-- They fit the bound. -/
  bounded (fields : List Field) (h : decode block maxSectionSize = .ok fields) :
    (fields.map Field.size).sum ≤ maxSectionSize
  /-- The connection closes exactly for the faults that leave it desynchronised. -/
  connection :
    (∃ violation, decode block maxSectionSize = .error violation ∧
      violation.code = Code.qpackDecompressionFailed ∧ violation.isConnectionError = true) ↔
    ∃ fault : Fault, fault.closesConnection = true ∧
      SectionReads maxSectionSize block (.error fault)
  tooLarge :
    (∃ violation, decode block maxSectionSize = .error violation ∧
      violation.isFieldSectionTooLarge = true) ↔
    SectionReads maxSectionSize block (.error .tooLarge)
  request :
    (∃ violation, decode block maxSectionSize = .error violation ∧
      violation.code = Code.qpackDecompressionFailed ∧ violation.isConnectionError = false) ↔
    ∃ fault : Fault, fault.endsRequest = true ∧ SectionReads maxSectionSize block (.error fault)

/-- **The first fault of a section decides its answer**, and a section without one fits its
bound. -/
theorem first_fault_graded (maxSectionSize : ℕ) (block : List UInt8) :
    Graded maxSectionSize block where
  reads := exists_sectionReads maxSectionSize block
  answered r h := h.decode_eq
  fields_iff fields := decode_ok_iff
  bounded fields h := (decode_ok_iff.mp h).size_le
  connection := by
    simp only [decode_error_iff, closesConnection_iff maxSectionSize]
  tooLarge := by
    simp only [decode_error_iff, eq_tooLarge_iff maxSectionSize, exists_eq_left]
  request := by
    simp only [decode_error_iff, endsRequest_iff maxSectionSize]

end Qpack

end Volto
