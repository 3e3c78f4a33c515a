import Mathlib.Data.List.Basic
import Volto.Bytes

/-!
# Text and its Bytes

A `String` of the source and the bytes it is made of, and `String::from_utf8_lossy`, which makes
text of any bytes: whatever is not UTF-8 becomes U+FFFD. A message that prints a value prints its
`Debug` rendering, where the quotes around it are escaped inside it.

## Main results

* `fromUtf8Lossy_asBytes`: text is left as it is.
* `asBytes_fromUtf8Lossy`: a reading without U+FFFD is the bytes themselves.
* `length_le_encodeChars_lossyChars`: the reading is no shorter than the bytes.
-/

namespace Volto

/-- The bytes of a text. -/
def asBytes (s : String) : List UInt8 :=
  s.toByteArray.data.toList

/-- The bytes of characters. -/
def encodeChars (chars : List Char) : List UInt8 :=
  chars.flatMap String.utf8EncodeChar

/-- The bytes of a string are those of its characters. -/
@[simp] theorem asBytes_ofList (chars : List Char) :
    asBytes (String.ofList chars) = encodeChars chars :=
  List.toList_data_toByteArray

/-- The bytes of a string are those of its list of characters. -/
theorem asBytes_eq (s : String) : asBytes s = encodeChars s.toList := by
  rw [← asBytes_ofList, String.ofList_toList]

/-- Two strings have the same bytes only if they are the same. -/
theorem asBytes_inj {s t : String} : asBytes s = asBytes t ↔ s = t := by
  constructor
  · intro h
    exact String.toByteArray_inj.mp (ByteArray.ext (Array.toList_inj.mp h))
  · rintro rfl
    rfl

/-- The bytes of two strings joined. -/
@[simp] theorem asBytes_append (s t : String) : asBytes (s ++ t) = asBytes s ++ asBytes t := by
  rw [asBytes, String.toByteArray_append, ByteArray.data_append, Array.toList_append]
  rfl

/-- A byte that continues a character. -/
def isContinuation (byte : UInt8) : Bool :=
  byte &&& 0xc0 == 0x80

/-- The first two bytes can start a character of three. -/
def startsThree (first second : UInt8) : Bool :=
  (first == 0xe0 && 0xa0 ≤ second && second ≤ 0xbf) ||
    (0xe1 ≤ first && first ≤ 0xec && 0x80 ≤ second && second ≤ 0xbf) ||
    (first == 0xed && 0x80 ≤ second && second ≤ 0x9f) ||
    (0xee ≤ first && first ≤ 0xef && 0x80 ≤ second && second ≤ 0xbf)

/-- The first two bytes can start a character of four. -/
def startsFour (first second : UInt8) : Bool :=
  (first == 0xf0 && 0x90 ≤ second && second ≤ 0xbf) ||
    (0xf1 ≤ first && first ≤ 0xf3 && 0x80 ≤ second && second ≤ 0xbf) ||
    (first == 0xf4 && 0x80 ≤ second && second ≤ 0x8f)

/-- How many bytes are replaced together where no character starts: as many as could have started
one. -/
def invalidLength (bytes : List UInt8) : ℕ :=
  let first := bytes.getD 0 0
  let second := bytes.getD 1 0
  if startsThree first second then 2
  else if startsFour first second then if isContinuation (bytes.getD 2 0) then 3 else 2
  else 1

/-- What is replaced has at least a byte. -/
theorem invalidLength_pos (bytes : List UInt8) : 0 < invalidLength bytes := by
  rw [invalidLength]
  split_ifs <;> decide

/-- What is replaced has at most three bytes. -/
theorem invalidLength_le (bytes : List UInt8) : invalidLength bytes ≤ 3 := by
  rw [invalidLength]
  split_ifs <;> decide

/-- U+FFFD, the replacement character. -/
def replacement : Char := '\uFFFD'

/-- The characters of any bytes. -/
def lossyChars (bytes : List UInt8) : List Char :=
  if bytes = [] then []
  else
    match bytes.toByteArray.utf8DecodeChar? 0 with
    | some char => char :: lossyChars (bytes.drop char.utf8Size)
    | none => replacement :: lossyChars (bytes.drop (invalidLength bytes))
termination_by bytes.length
decreasing_by
  all_goals
    have hlength := List.length_pos_of_ne_nil ‹bytes ≠ []›
    rw [List.length_drop]
  · exact Nat.sub_lt hlength char.utf8Size_pos
  · exact Nat.sub_lt hlength (invalidLength_pos bytes)

/-- Reads bytes as text, whatever they are. -/
def fromUtf8Lossy (bytes : List UInt8) : String :=
  String.ofList (lossyChars bytes)

/-! ### Text is left as it is -/

/-- The bytes of the first character stand first. -/
@[simp] theorem encodeChars_cons (char : Char) (chars : List Char) :
    encodeChars (char :: chars) = String.utf8EncodeChar char ++ encodeChars chars :=
  List.flatMap_cons

/-- The bytes of two texts joined. -/
@[simp] theorem encodeChars_append (chars chars' : List Char) :
    encodeChars (chars ++ chars') = encodeChars chars ++ encodeChars chars' :=
  List.flatMap_append

/-- No bytes are no characters. -/
@[simp] theorem lossyChars_nil : lossyChars [] = [] := by
  rw [lossyChars]
  rfl

/-- Every character has a byte. -/
theorem utf8EncodeChar_ne_nil (char : Char) : String.utf8EncodeChar char ≠ [] := by
  rw [← List.length_pos_iff, String.length_utf8EncodeChar]
  exact char.utf8Size_pos

/-- A character is read as itself, whatever follows it. -/
theorem lossyChars_char_append (char : Char) (rest : List UInt8) :
    lossyChars (String.utf8EncodeChar char ++ rest) = char :: lossyChars rest := by
  have hne : String.utf8EncodeChar char ++ rest ≠ [] :=
    List.append_ne_nil_of_left_ne_nil (utf8EncodeChar_ne_nil char) rest
  have hdecode :
      (String.utf8EncodeChar char ++ rest).toByteArray.utf8DecodeChar? 0 = some char := by
    rw [List.toByteArray_append]
    exact ByteArray.utf8DecodeChar?_utf8EncodeChar_append
  rw [lossyChars, if_neg hne, hdecode]
  simp [← String.length_utf8EncodeChar]

/-- **Characters are read as themselves**, whatever follows them. -/
theorem lossyChars_encodeChars_append (chars : List Char) (rest : List UInt8) :
    lossyChars (encodeChars chars ++ rest) = chars ++ lossyChars rest := by
  induction chars with
  | nil => rfl
  | cons char chars ih =>
      rw [encodeChars_cons, List.append_assoc, lossyChars_char_append, ih, List.cons_append]

/-- **Text is left as it is.** -/
theorem fromUtf8Lossy_asBytes (s : String) : fromUtf8Lossy (asBytes s) = s := by
  have h := lossyChars_encodeChars_append s.toList []
  rw [List.append_nil, lossyChars_nil, List.append_nil, ← asBytes_eq] at h
  rw [fromUtf8Lossy, h, String.ofList_toList]

/-! ### Bytes that are not text -/

/-- What one step reads: a character that is there, or a replacement. -/
theorem lossyChars_cases {bytes : List UInt8} (hne : bytes ≠ []) :
    (∃ char rest, bytes = String.utf8EncodeChar char ++ rest ∧
      lossyChars bytes = char :: lossyChars rest) ∨
    ∃ invalid rest, bytes = invalid ++ rest ∧ invalid ≠ [] ∧ invalid.length ≤ 3 ∧
      lossyChars bytes = replacement :: lossyChars rest := by
  rcases hdecode : bytes.toByteArray.utf8DecodeChar? 0 with - | char
  · right
    refine ⟨bytes.take (invalidLength bytes), bytes.drop (invalidLength bytes),
      (List.take_append_drop _ _).symm, ?_, ?_, ?_⟩
    · rw [← List.length_pos_iff, List.length_take]
      exact lt_min (invalidLength_pos bytes) (List.length_pos_of_ne_nil hne)
    · rw [List.length_take]
      exact (min_le_left _ _).trans (invalidLength_le bytes)
    · rw [lossyChars, if_neg hne, hdecode]
  · left
    obtain ⟨rest, hrest⟩ := ByteArray.exists_of_utf8DecodeChar?_eq_some hdecode
    have hbytes : bytes = String.utf8EncodeChar char ++ rest.data.toList := by
      have h := congrArg (fun array => array.data.toList) hrest
      simpa using h
    exact ⟨char, rest.data.toList, hbytes, by rw [hbytes, lossyChars_char_append]⟩

/-- The byte `0xff` starts no character, and is replaced by itself. -/
theorem lossyChars_ff_cons (rest : List UInt8) :
    lossyChars (0xff :: rest) = replacement :: lossyChars rest := by
  have hdecode : (0xff :: rest).toByteArray.utf8DecodeChar? 0 = none := by
    rw [Option.eq_none_iff_forall_ne_some]
    intro char hchar
    obtain ⟨tail, htail⟩ := ByteArray.exists_of_utf8DecodeChar?_eq_some hchar
    have hbytes : 0xff :: rest = String.utf8EncodeChar char ++ tail.data.toList := by
      simpa using congrArg (fun array => array.data.toList) htail
    have hfirst : (String.utf8EncodeChar char).head? = some 0xff := by
      rw [← List.head?_append_of_ne_nil _ (utf8EncodeChar_ne_nil char), ← hbytes, List.head?_cons]
    have hstart : UInt8.IsUTF8FirstByte 0xff := by
      have h := UInt8.isUTF8FirstByte_getElem_zero_utf8EncodeChar (c := char)
      rw [List.head?_eq_getElem?] at hfirst
      obtain ⟨_, hzero⟩ := List.getElem?_eq_some_iff.mp hfirst
      rwa [hzero] at h
    exact absurd hstart (by decide)
  have hlength : invalidLength (0xff :: rest) = 1 := rfl
  rw [lossyChars, if_neg (List.cons_ne_nil _ _), hdecode]
  simp only [hlength]
  rfl

/-- **A reading without U+FFFD is the bytes themselves.** -/
theorem encodeChars_lossyChars {bytes : List UInt8} (h : replacement ∉ lossyChars bytes) :
    encodeChars (lossyChars bytes) = bytes := by
  induction hn : bytes.length using Nat.strong_induction_on generalizing bytes with
  | _ n ih =>
      subst hn
      by_cases hne : bytes = []
      · subst hne
        rw [lossyChars_nil]
        rfl
      obtain ⟨char, rest, hbytes, hchars⟩ | ⟨invalid, rest, -, -, -, hchars⟩ :=
        lossyChars_cases hne
      · rw [hchars] at h ⊢
        have hlength : rest.length < bytes.length := by
          rw [hbytes, List.length_append]
          exact Nat.lt_add_of_pos_left (List.length_pos_of_ne_nil (utf8EncodeChar_ne_nil char))
        rw [encodeChars_cons, ih _ hlength (fun hmem => h (List.mem_cons_of_mem _ hmem)) rfl,
          ← hbytes]
      · rw [hchars] at h
        exact absurd (List.mem_cons_self ..) h

/-- A lossy reading without a replacement has lost nothing. -/
theorem asBytes_fromUtf8Lossy {bytes : List UInt8}
    (h : replacement ∉ (fromUtf8Lossy bytes).toList) :
    asBytes (fromUtf8Lossy bytes) = bytes := by
  rw [fromUtf8Lossy, String.toList_ofList] at h
  rw [fromUtf8Lossy, asBytes_ofList, encodeChars_lossyChars h]

/-- **The reading is no shorter than the bytes.** -/
theorem length_le_encodeChars_lossyChars (bytes : List UInt8) :
    bytes.length ≤ (encodeChars (lossyChars bytes)).length := by
  induction hn : bytes.length using Nat.strong_induction_on generalizing bytes with
  | _ n ih =>
      subst hn
      by_cases hne : bytes = []
      · subst hne
        exact Nat.zero_le _
      obtain ⟨char, rest, rfl, hchars⟩ | ⟨invalid, rest, rfl, hinvalid, hle, hchars⟩ :=
        lossyChars_cases hne
      · have hpos := List.length_pos_of_ne_nil (utf8EncodeChar_ne_nil char)
        have hrest := ih rest.length (by rw [List.length_append]; omega) rest rfl
        rw [hchars, encodeChars_cons, List.length_append, List.length_append]
        omega
      · have hpos := List.length_pos_of_ne_nil hinvalid
        have hthree : (String.utf8EncodeChar replacement).length = 3 := by decide
        have hrest := ih rest.length (by rw [List.length_append]; omega) rest rfl
        rw [hchars, encodeChars_cons, List.length_append, List.length_append]
        omega

/-! ### Debug renderings -/

/-- How `Debug` spells a character between quotes. What is not printable is decided by the tables
of the standard library, and spelled by its number. -/
def escapeDebug (unprintable : Char → Bool) (quote char : Char) : List Char :=
  if char = '\x00' then ['\\', '0']
  else if char = '\t' then ['\\', 't']
  else if char = '\r' then ['\\', 'r']
  else if char = '\n' then ['\\', 'n']
  else if char = '\\' ∨ char = quote then ['\\', char]
  else if unprintable char then '\\' :: 'u' :: '\x7b' :: (Nat.toDigits 16 char.toNat ++ ['\x7d'])
  else [char]

/-- The `Debug` rendering of a string. -/
def debugString (unprintable : Char → Bool) (string : List Char) : List Char :=
  '"' :: (string.flatMap (escapeDebug unprintable '"') ++ ['"'])

/-- The `Debug` rendering of a character. -/
def debugChar (unprintable : Char → Bool) (char : Char) : List Char :=
  '\x27' :: (escapeDebug unprintable '\x27' char ++ ['\x27'])

end Volto
