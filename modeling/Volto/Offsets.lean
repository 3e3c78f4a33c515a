import Volto.Text

/-!
# Byte Offsets into Text

A `str` of the source is read here as its characters, and an offset into it counts bytes. Slicing
at an offset that lies inside a character, or past the end, is a panic of the source, and `none`
here.

## Main results

* `splitBytes_append`: the offset of a boundary splits there.
* `findChar_append`, `findChar_eq_none`: what a search finds, and where.
* `encodeChar_ascii`, `encodeChar_wide`: a byte below `0x80` is a whole character.
-/

namespace Volto

/-- How many bytes characters take. -/
def byteLength (chars : List Char) : ℕ :=
  (encodeChars chars).length

/-- No characters take no bytes. -/
@[simp] theorem byteLength_nil : byteLength [] = 0 := rfl

/-- The bytes of one more character. -/
@[simp] theorem byteLength_cons (char : Char) (chars : List Char) :
    byteLength (char :: chars) = char.utf8Size + byteLength chars := by
  rw [byteLength, encodeChars_cons, List.length_append, String.length_utf8EncodeChar]
  rfl

/-- The bytes of two texts joined. -/
@[simp] theorem byteLength_append (chars chars' : List Char) :
    byteLength (chars ++ chars') = byteLength chars + byteLength chars' := by
  rw [byteLength, encodeChars_append, List.length_append]
  rfl

/-- The two sides of an offset, when it lies between characters. -/
def splitBytes : List Char → ℕ → Option (List Char × List Char)
  | chars, 0 => some ([], chars)
  | [], _ + 1 => none
  | char :: chars, offset + 1 =>
      if char.utf8Size ≤ offset + 1 then
        (splitBytes chars (offset + 1 - char.utf8Size)).map fun sides =>
          (char :: sides.1, sides.2)
      else none

/-- The slice `[..offset]`. -/
def sliceTo (chars : List Char) (offset : ℕ) : Option (List Char) :=
  (splitBytes chars offset).map Prod.fst

/-- The slice `[offset..]`. -/
def sliceFrom (chars : List Char) (offset : ℕ) : Option (List Char) :=
  (splitBytes chars offset).map Prod.snd

/-- The offset of the first character that matches. -/
def findChar (p : Char → Bool) : List Char → Option ℕ
  | [] => none
  | char :: chars => if p char then some 0 else (findChar p chars).map (char.utf8Size + ·)

/-! ### Slices -/

/-- **The offset of a boundary splits there.** -/
theorem splitBytes_append (before after : List Char) :
    splitBytes (before ++ after) (byteLength before) = some (before, after) := by
  induction before with
  | nil => rw [List.nil_append, byteLength_nil, splitBytes]
  | cons char before ih =>
      have hpos := char.utf8Size_pos
      obtain ⟨offset, hoffset⟩ : ∃ offset, byteLength (char :: before) = offset + 1 :=
        ⟨byteLength (char :: before) - 1, by rw [byteLength_cons]; omega⟩
      have hle : char.utf8Size ≤ offset + 1 := by
        rw [← hoffset, byteLength_cons]
        omega
      have hsub : offset + 1 - char.utf8Size = byteLength before := by
        rw [← hoffset, byteLength_cons]
        omega
      rw [hoffset, List.cons_append, splitBytes, if_pos hle, hsub, ih]
      rfl

/-- A split gives back the text, at a boundary of it. -/
theorem splitBytes_eq_some {chars before after : List Char} {offset : ℕ}
    (h : splitBytes chars offset = some (before, after)) :
    chars = before ++ after ∧ offset = byteLength before := by
  induction chars generalizing offset before with
  | nil =>
      rcases offset with - | offset
      · obtain ⟨rfl, rfl⟩ := Prod.mk.inj (Option.some.inj h)
        exact ⟨rfl, rfl⟩
      · exact absurd h (by simp [splitBytes])
  | cons char chars ih =>
      rcases offset with - | offset
      · obtain ⟨rfl, rfl⟩ := Prod.mk.inj (Option.some.inj h)
        exact ⟨rfl, rfl⟩
      rw [splitBytes] at h
      split_ifs at h with hle
      obtain ⟨⟨inner, rest⟩, hsplit, hsides⟩ := Option.map_eq_some_iff.mp h
      obtain ⟨rfl, rfl⟩ := Prod.mk.inj hsides
      obtain ⟨rfl, hoffset⟩ := ih hsplit
      refine ⟨rfl, ?_⟩
      rw [byteLength_cons, ← hoffset]
      omega

/-- A text is cut where its first part ends. -/
theorem sliceTo_append (before after : List Char) :
    sliceTo (before ++ after) (byteLength before) = some before := by
  rw [sliceTo, splitBytes_append]
  rfl

/-- A text is cut where its second part begins. -/
theorem sliceFrom_append (before after : List Char) :
    sliceFrom (before ++ after) (byteLength before) = some after := by
  rw [sliceFrom, splitBytes_append]
  rfl

/-- A slice that leaves something out is shorter. -/
theorem length_lt_of_sliceFrom {chars after : List Char} {offset : ℕ}
    (h : sliceFrom chars (offset + 1) = some after) : after.length < chars.length := by
  obtain ⟨⟨before, rest⟩, hsplit, rfl⟩ := Option.map_eq_some_iff.mp h
  obtain ⟨rfl, hoffset⟩ := splitBytes_eq_some hsplit
  have hbefore : before ≠ [] := by
    rintro rfl
    rw [byteLength_nil] at hoffset
    omega
  have hpos := List.length_pos_of_ne_nil hbefore
  rw [List.length_append]
  exact Nat.lt_add_of_pos_left hpos

/-! ### Searches -/

/-- A search finds the first character that matches. -/
theorem findChar_append {p : Char → Bool} {before : List Char} {char : Char}
    (hbefore : ∀ other ∈ before, p other = false) (hchar : p char = true) (after : List Char) :
    findChar p (before ++ char :: after) = some (byteLength before) := by
  induction before with
  | nil => rw [List.nil_append, findChar, if_pos hchar, byteLength_nil]
  | cons other before ih =>
      have hother : ¬ p other = true := by
        rw [hbefore other (List.mem_cons_self ..)]
        exact Bool.false_ne_true
      have hrest := ih fun c hc => hbefore c (List.mem_cons_of_mem _ hc)
      rw [List.cons_append, findChar, if_neg hother, hrest, byteLength_cons]
      rfl

/-- A character that does not occur is not found. -/
theorem findChar_eq_none {p : Char → Bool} {chars : List Char}
    (h : ∀ char ∈ chars, p char = false) : findChar p chars = none := by
  induction chars with
  | nil => rfl
  | cons char chars ih =>
      have hchar : ¬ p char = true := by
        rw [h char (List.mem_cons_self ..)]
        exact Bool.false_ne_true
      rw [findChar, if_neg hchar, ih fun c hc => h c (List.mem_cons_of_mem _ hc)]
      rfl

/-- Text either has no match, or splits at the first one. -/
theorem forall_or_exists_first (p : Char → Bool) (chars : List Char) :
    (∀ char ∈ chars, p char = false) ∨
      ∃ before char after, chars = before ++ char :: after ∧
        (∀ other ∈ before, p other = false) ∧ p char = true := by
  induction chars with
  | nil => exact .inl fun char hchar => absurd hchar List.not_mem_nil
  | cons first chars ih =>
      by_cases hfirst : p first = true
      · exact .inr ⟨[], first, chars, rfl, fun other hother => absurd hother List.not_mem_nil,
          hfirst⟩
      have hfirst' : p first = false := by simpa using hfirst
      obtain hnone | ⟨before, char, after, rfl, hbefore, hchar⟩ := ih
      · exact .inl (List.forall_mem_cons.mpr ⟨hfirst', hnone⟩)
      · exact .inr ⟨first :: before, char, after, rfl,
          List.forall_mem_cons.mpr ⟨hfirst', hbefore⟩, hchar⟩

/-! ### Bytes of a character -/

/-- An ASCII character is one byte. -/
theorem encodeChar_ascii {char : Char} (h : char.toNat < 0x80) :
    String.utf8EncodeChar char = [UInt8.ofNat char.toNat] := by
  have hle : char.val.toNat ≤ 0x7f := Nat.le_of_lt_succ h
  rw [String.utf8EncodeChar]
  simp only [hle, if_true]
  rfl

/-- A byte that carries bits of a character has its high bit set. -/
theorem toNat_ofNat_mod_add (n : ℕ) {m k : ℕ} (hm : 0 < m) (hk : 0x80 ≤ k) (hmk : m + k ≤ 256) :
    0x80 ≤ (UInt8.ofNat (n % m + k)).toNat := by
  have hlt := Nat.mod_lt n hm
  rw [UInt8.toNat_ofNat', Nat.mod_eq_of_lt (by omega)]
  omega

/-- **No byte of any other character is ASCII.** -/
theorem encodeChar_wide {char : Char} (h : 0x80 ≤ char.toNat) :
    ∀ byte ∈ String.utf8EncodeChar char, 0x80 ≤ byte.toNat := by
  have hnot : ¬ char.val.toNat ≤ 0x7f := Nat.not_le_of_lt h
  intro byte hbyte
  rw [String.utf8EncodeChar] at hbyte
  simp only [hnot, if_false] at hbyte
  split_ifs at hbyte <;> simp only [List.mem_cons, List.not_mem_nil, or_false] at hbyte
  · obtain rfl | rfl := hbyte
    all_goals exact toNat_ofNat_mod_add _ (by decide) (by decide) (by decide)
  · obtain rfl | rfl | rfl := hbyte
    all_goals exact toNat_ofNat_mod_add _ (by decide) (by decide) (by decide)
  · obtain rfl | rfl | rfl | rfl := hbyte
    all_goals exact toNat_ofNat_mod_add _ (by decide) (by decide) (by decide)

end Volto
