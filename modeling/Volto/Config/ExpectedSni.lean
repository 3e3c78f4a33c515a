import Volto.Gate.FirstFlight
import Volto.Lib.Fallible
import Volto.Lib.Splitting
import Volto.Net.Literals
import Volto.Offsets

/-!
# The Names a ClientHello Can Carry

`security.expected_sni` of the configuration: what `validate_expected_sni` of `config.rs` lets
through, and what the gate's `Names` then match. A name that no ClientHello can carry would make
the server unreachable in silence, so the validator is to refuse every one of them.

It checks the length of the name and the characters of its labels, and not the length of a label:
a label of 64 bytes or more passes, and DNS has no such name. Everything else is exact.

## Main results

* `validateExpectedSni_ok_iff`: what the validator lets through.
* `accepts_iff`: the gate matches names up to ASCII case and one root dot on either side.
* `expected_sni_exact_iff`: the two together, and the labels for which the first is not what a
  ClientHello can carry.
-/

namespace Volto.Config

open Fallible (ite_error_eq_ok)
open Gate (rootRelative Names normalise)
open Splitting (mem_intercalate mem_intercalate_of_mem not_mem_of_mem_splitOn)

/-- The longest host name a `server_name` extension can carry, in bytes. -/
def maxExpectedSni : ℕ := 253

/-- The characters a configured name may have. -/
def isNameChar (char : Char) : Bool :=
  char.isAlphanum || char == '-' || char == '.' || char == '_'

/-- Validates one `security.expected_sni` entry. What `Debug` takes for printable is a table of
the standard library. -/
def validateExpectedSni (unprintable : Char → Bool) (index : ℕ) (name : String) :
    Except String Unit :=
  let bare := rootRelative (asBytes name)
  let entry := "security.expected_sni[" ++ toString index ++ "]"
  let named := entry ++ " = " ++ String.ofList (debugString unprintable name.toList)
  if bare.isEmpty then .error (entry ++ " is empty, which is not a host name")
  else if (bare.splitOn 0x2e).any List.isEmpty then
    .error (named ++ " has an empty label; a host name has no leading dot and no two dots in a " ++
      "row, and only one trailing dot, which spells the root")
  else if maxExpectedSni < bare.length then
    .error (entry ++ " is " ++ toString bare.length ++ " bytes; a DNS host name is at most " ++
      toString maxExpectedSni ++ ", so no ClientHello could ever carry it")
  else if bare.contains 0x2a then
    .error (named ++ " looks like a wildcard, and this list is matched name for name: write out " ++
      "each host it should accept")
  else
    match (lossyChars bare).find? fun char => !isNameChar char with
    | some bad =>
        .error (named ++ " contains " ++ String.ofList (debugChar unprintable bad) ++
          "; a server_name carries an ASCII DNS host name, so an internationalized domain goes " ++
          "here in its A-label form (xn--...)")
    | none =>
        if parsesAsIpv4 bare || parsesAsIpv6 bare then
          .error (named ++ " is an IP address literal, which RFC 6066 §3 does not permit in a " ++
            "server_name, so no conforming client can send it and the gate would refuse every " ++
            "handshake without a reply. Name the host the certificate is issued for instead")
        else .ok ()

/-! ### Host names -/

/-- A letter, a digit, a hyphen or an underscore. -/
def isLabelByte (byte : UInt8) : Bool :=
  isAsciiAlphanumeric byte || byte == 0x2d || byte == 0x5f

/-- Labels with dots between them. -/
def dotted (labels : List (List UInt8)) : List UInt8 :=
  [0x2e].intercalate labels

/-- What the validator asks of the labels of a name. -/
structure Written (labels : List (List UInt8)) : Prop where
  nonempty : labels ≠ []
  label : ∀ label ∈ labels, 1 ≤ label.length ∧ ∀ byte ∈ label, isLabelByte byte
  length : (dotted labels).length ≤ maxExpectedSni
  notIpv4 : parsesAsIpv4 (dotted labels) = false

/-- The longest label there is in DNS. -/
def maxLabel : ℕ := 63

/-- A name spells labels, with one trailing dot or none. -/
def Spells (name : List UInt8) (labels : List (List UInt8)) : Prop :=
  name = dotted labels ∨ name = dotted labels ++ [0x2e]

/-- A name that a ClientHello can carry, with one trailing dot or none. -/
def Carried (name : List UInt8) : Prop :=
  ∃ labels, Written labels ∧ (∀ label ∈ labels, label.length ≤ maxLabel) ∧ Spells name labels

/-- `bare` is `name` without its one trailing dot, if it has one. -/
def Bare (name bare : List UInt8) : Prop :=
  name = bare ++ [0x2e] ∨ name = bare ∧ ∀ rest, name ≠ rest ++ [0x2e]

/-- Two names are one when the case of ASCII letters is ignored, and one trailing dot of each. -/
def SameName (name name' : List UInt8) : Prop :=
  ∃ bare bare', Bare name bare ∧ Bare name' bare' ∧
    bare.map toAsciiLowercase = bare'.map toAsciiLowercase

/-- The capital of a small letter, every other byte as it is. -/
def toAsciiUppercase (byte : UInt8) : UInt8 :=
  if isAsciiLowercase byte then byte - 0x20 else byte

/-! ### The root dot -/

/-- One dot at the end is dropped. -/
theorem rootRelative_append (bare : List UInt8) : rootRelative (bare ++ [0x2e]) = bare := by
  rw [rootRelative, if_pos List.getLast?_concat, List.dropLast_concat]

/-- A name without a dot at its end is kept. -/
theorem rootRelative_of_forall_ne {name : List UInt8} (h : ∀ rest, name ≠ rest ++ [0x2e]) :
    rootRelative name = name := by
  rw [rootRelative, if_neg]
  intro hlast
  obtain ⟨rest, hrest⟩ := List.getLast?_eq_some_iff.mp hlast
  exact h rest hrest

/-- `rootRelative` removes the one trailing dot. -/
theorem bare_iff {name bare : List UInt8} : Bare name bare ↔ rootRelative name = bare := by
  constructor
  · rintro (rfl | ⟨rfl, hne⟩)
    · exact rootRelative_append bare
    · exact rootRelative_of_forall_ne hne
  · rintro rfl
    by_cases hlast : ∃ rest, name = rest ++ [0x2e]
    · obtain ⟨rest, rfl⟩ := hlast
      exact .inl (by rw [rootRelative_append])
    · have hne : ∀ rest, name ≠ rest ++ [0x2e] := not_exists.mp hlast
      exact .inr ⟨(rootRelative_of_forall_ne hne).symm, hne⟩

/-! ### What the validator lets through -/

/-- A character of a name is ASCII, and its byte is one of a label or a dot. -/
theorem byte_of_isNameChar {char : Char} (h : isNameChar char = true) :
    char.toNat < 0x80 ∧ (isLabelByte (UInt8.ofNat char.toNat) = true ∨
      UInt8.ofNat char.toNat = 0x2e) := by
  have hascii : char.toNat < 0x80 := by
    rw [isNameChar, Bool.or_eq_true, Bool.or_eq_true, Bool.or_eq_true, beq_iff_eq, beq_iff_eq,
      beq_iff_eq] at h
    obtain ((h | rfl) | rfl) | rfl := h
    · delta Char.isAlphanum Char.isAlpha Char.isUpper Char.isLower Char.isDigit at h
      simp only [Bool.or_eq_true, Bool.and_eq_true, decide_eq_true_eq, UInt32.le_iff_toNat_le] at h
      obtain (⟨-, h⟩ | ⟨-, h⟩) | ⟨-, h⟩ := h
      all_goals exact h.trans_lt (by decide)
    · decide
    · decide
    · decide
  have hall : ∀ n < 0x80, isNameChar (Char.ofNat n) = true →
      isLabelByte (UInt8.ofNat n) = true ∨ UInt8.ofNat n = 0x2e := by decide +kernel
  have hchar := hall char.toNat hascii
  rw [Char.ofNat_toNat] at hchar
  exact ⟨hascii, hchar h⟩

/-- The byte of a label, or a dot, is a character of a name. -/
theorem isNameChar_of_byte {byte : UInt8} (h : isLabelByte byte = true ∨ byte = 0x2e) :
    String.utf8EncodeChar (Char.ofNat byte.toNat) = [byte] ∧
      isNameChar (Char.ofNat byte.toNat) = true := by
  have hall : ∀ byte : UInt8, isLabelByte byte = true ∨ byte = 0x2e →
      String.utf8EncodeChar (Char.ofNat byte.toNat) = [byte] ∧
        isNameChar (Char.ofNat byte.toNat) = true := by
    exact forall_byte (by decide +kernel)
  exact hall byte h

/-- The characters of a name are those of labels, and dots. -/
theorem find?_lossyChars_eq_none {bytes : List UInt8} :
    (lossyChars bytes).find? (fun char => !isNameChar char) = none ↔
      ∀ byte ∈ bytes, isLabelByte byte = true ∨ byte = 0x2e := by
  rw [List.find?_eq_none]
  constructor
  · intro h
    have hchars : ∀ char ∈ lossyChars bytes, isNameChar char = true := by
      intro char hchar
      simpa using h char hchar
    have hreplacement : replacement ∉ lossyChars bytes := by
      intro hmem
      exact absurd (hchars _ hmem) (by decide)
    intro byte hbyte
    rw [← encodeChars_lossyChars hreplacement, encodeChars, List.mem_flatMap] at hbyte
    obtain ⟨char, hchar, hbyte⟩ := hbyte
    obtain ⟨hascii, hlabel⟩ := byte_of_isNameChar (hchars char hchar)
    rw [encodeChar_ascii hascii, List.mem_singleton] at hbyte
    rwa [hbyte]
  · intro h
    have hencode : encodeChars (bytes.map fun byte => Char.ofNat byte.toNat) = bytes := by
      induction bytes with
      | nil => rfl
      | cons byte bytes ih =>
          obtain ⟨hbyte, hbytes⟩ := List.forall_mem_cons.mp h
          rw [List.map_cons, encodeChars_cons, (isNameChar_of_byte hbyte).1, ih hbytes,
            List.singleton_append]
    have hchars := lossyChars_encodeChars_append (bytes.map fun byte => Char.ofNat byte.toNat) []
    rw [List.append_nil, hencode, lossyChars_nil, List.append_nil] at hchars
    intro char hchar
    rw [hchars] at hchar
    obtain ⟨byte, hbyte, rfl⟩ := List.mem_map.mp hchar
    rw [(isNameChar_of_byte (h byte hbyte)).2]
    decide

/-- The checks of the validator, in order. -/
theorem validateExpectedSni_eq_ok {unprintable : Char → Bool} {index : ℕ} {name : String}
    {bare : List UInt8} (hbare : rootRelative (asBytes name) = bare) :
    validateExpectedSni unprintable index name = .ok () ↔
      bare ≠ [] ∧ [] ∉ bare.splitOn 0x2e ∧ bare.length ≤ maxExpectedSni ∧
        (∀ byte ∈ bare, isLabelByte byte = true ∨ byte = 0x2e) ∧ parsesAsIpv4 bare = false := by
  rw [validateExpectedSni, hbare]
  rw [ite_error_eq_ok, ite_error_eq_ok, ite_error_eq_ok, ite_error_eq_ok]
  by_cases hbytes : ∀ byte ∈ bare, isLabelByte byte = true ∨ byte = 0x2e
  · have hbyte : ∀ byte, isLabelByte byte = false → byte ≠ 0x2e → byte ∉ bare := by
      intro byte hlabel hdot hmem
      obtain h | h := hbytes byte hmem
      · rw [hlabel] at h
        cases h
      · exact hdot h
    have hstar : bare.contains 0x2a = false := by
      simpa using hbyte 0x2a (by decide) (by decide)
    have hcolon : parsesAsIpv6 bare = false :=
      parsesAsIpv6_of_colon_notMem (hbyte 0x3a (by decide) (by decide))
    rw [find?_lossyChars_eq_none.mpr hbytes, hstar, hcolon, and_iff_right hbytes]
    simp
  · have hbad : (lossyChars bare).find? (fun char => !isNameChar char) ≠ none :=
      mt find?_lossyChars_eq_none.mp hbytes
    obtain ⟨bad, hfind⟩ := Option.ne_none_iff_exists'.mp hbad
    rw [hfind]
    simp [hbytes]

/-- The labels of a name are what stands between its dots. -/
theorem Written.splitOn_dotted {labels : List (List UInt8)} (h : Written labels) :
    (dotted labels).splitOn 0x2e = labels := by
  refine List.splitOn_intercalate 0x2e (fun label hlabel hdot => ?_) h.nonempty
  have hbyte := (h.label label hlabel).2 0x2e hdot
  exact absurd hbyte (by decide)

/-- No label of a written name is empty. -/
theorem Written.nil_notMem {labels : List (List UInt8)} (h : Written labels) : [] ∉ labels :=
  fun hmem => absurd (h.label [] hmem).1 (by decide)

/-- A written name has no dot at its end. -/
theorem Written.ne_append {labels : List (List UInt8)} (h : Written labels) (rest : List UInt8) :
    dotted labels ≠ rest ++ [0x2e] := by
  intro heq
  refine h.nil_notMem ?_
  rw [← h.splitOn_dotted, heq, List.splitOn_append_cons_self, List.splitOn_nil]
  exact List.mem_append_right _ (List.mem_singleton.mpr rfl)

/-- A name that is written is bare once its one trailing dot is gone. -/
theorem Written.rootRelative_eq {labels : List (List UInt8)} {name : List UInt8}
    (h : Written labels) (hname : Spells name labels) : rootRelative name = dotted labels := by
  obtain rfl | rfl := hname
  · exact rootRelative_of_forall_ne h.ne_append
  · exact rootRelative_append _

/-- Every name is spelled by what stands between its dots. -/
theorem spells_splitOn (name : List UInt8) : Spells name ((rootRelative name).splitOn 0x2e) := by
  have hdotted : dotted ((rootRelative name).splitOn 0x2e) = rootRelative name :=
    List.intercalate_splitOn 0x2e
  rw [Spells, hdotted]
  obtain hdot | ⟨hbare, -⟩ := bare_iff.mpr (rfl : rootRelative name = rootRelative name)
  · exact .inr hdot
  · exact .inl hbare

/-- **What the validator lets through**: everything a ClientHello can carry, and longer labels. -/
theorem validateExpectedSni_ok_iff {unprintable : Char → Bool} {index : ℕ} {name : String} :
    validateExpectedSni unprintable index name = .ok () ↔
      ∃ labels, Written labels ∧ Spells (asBytes name) labels := by
  rw [validateExpectedSni_eq_ok rfl]
  constructor
  · rintro ⟨-, hlabels, hlength, hbytes, hipv4⟩
    have hdotted : dotted ((rootRelative (asBytes name)).splitOn 0x2e) =
        rootRelative (asBytes name) := List.intercalate_splitOn 0x2e
    refine ⟨(rootRelative (asBytes name)).splitOn 0x2e, ⟨List.splitOn_ne_nil _ _, ?_, ?_, ?_⟩,
      spells_splitOn _⟩
    · intro label hlabel
      have hne : label ≠ [] := fun h => hlabels (h ▸ hlabel)
      refine ⟨List.length_pos_of_ne_nil hne, fun byte hbyte => ?_⟩
      have hmem : byte ∈ dotted ((rootRelative (asBytes name)).splitOn 0x2e) :=
        mem_intercalate_of_mem hlabel hbyte
      have hdot : byte ≠ 0x2e := fun h => not_mem_of_mem_splitOn hlabel (h ▸ hbyte)
      rw [hdotted] at hmem
      exact (hbytes byte hmem).resolve_right hdot
    · rwa [hdotted]
    · rwa [hdotted]
  · rintro ⟨labels, hwritten, hspells⟩
    rw [hwritten.rootRelative_eq hspells, hwritten.splitOn_dotted]
    refine ⟨?_, ?_, hwritten.length, ?_, hwritten.notIpv4⟩
    · intro hempty
      have hlabels := hwritten.splitOn_dotted
      rw [hempty, List.splitOn_nil] at hlabels
      exact hwritten.nil_notMem (hlabels ▸ List.mem_singleton.mpr rfl)
    · exact hwritten.nil_notMem
    · intro byte hbyte
      obtain h | ⟨label, hlabel, hmem⟩ := mem_intercalate hbyte
      · exact .inr h
      · exact .inl ((hwritten.label label hlabel).2 byte hmem)

/-! ### What the gate matches -/

/-- A small letter is its own small letter. -/
theorem toAsciiLowercase_idem (byte : UInt8) :
    toAsciiLowercase (toAsciiLowercase byte) = toAsciiLowercase byte := by
  have hall : ∀ byte : UInt8, toAsciiLowercase (toAsciiLowercase byte) = toAsciiLowercase byte := by
    exact forall_byte (by decide +kernel)
  exact hall byte

/-- A capital has the small letter it was made from. -/
theorem toAsciiLowercase_toAsciiUppercase (byte : UInt8) :
    toAsciiLowercase (toAsciiUppercase byte) = toAsciiLowercase byte := by
  have hall : ∀ byte : UInt8,
      toAsciiLowercase (toAsciiUppercase byte) = toAsciiLowercase byte := by
    exact forall_byte (by decide +kernel)
  exact hall byte

/-- A normalised entry matches exactly the names that are the same but for case and a last dot. -/
theorem eqIgnoreAsciiCase_normalise {entry name : List UInt8} :
    eqIgnoreAsciiCase (normalise entry) (rootRelative name) = true ↔ SameName entry name := by
  rw [eqIgnoreAsciiCase, normalise, List.map_map, beq_iff_eq]
  simp only [Function.comp_def, toAsciiLowercase_idem]
  constructor
  · intro h
    exact ⟨_, _, bare_iff.mpr rfl, bare_iff.mpr rfl, h⟩
  · rintro ⟨bare, bare', hbare, hbare', h⟩
    rwa [bare_iff.mp hbare, bare_iff.mp hbare']

/-- **The gate matches a name** up to ASCII case and one root dot on either side. -/
theorem accepts_iff {configured : List (List UInt8)} {name : List UInt8} :
    (Names.new configured).accepts name = true ↔ ∃ entry ∈ configured, SameName entry name := by
  rw [Names.accepts, Names.new, List.any_map, List.any_eq_true]
  simp only [Function.comp_apply, eqIgnoreAsciiCase_normalise]

/-- The spellings of a name: in its own case, in lower case and in upper case, with and without a
root dot. -/
def spellings (bare : List UInt8) : List (List UInt8) :=
  let cases := [bare, bare.map toAsciiLowercase, bare.map toAsciiUppercase]
  cases ++ cases.map (· ++ [0x2e])

/-- A change of case leaves the labels of a name where they are. -/
theorem rootRelative_map {f : UInt8 → UInt8} (hf : ∀ byte, f byte = 0x2e ↔ byte = 0x2e)
    {bare : List UInt8} (h : rootRelative bare = bare) :
    rootRelative (bare.map f) = bare.map f := by
  rw [rootRelative, if_neg]
  intro hlast
  rw [List.getLast?_map, Option.map_eq_some_iff] at hlast
  obtain ⟨byte, hlast, hbyte⟩ := hlast
  rw [hf] at hbyte
  rw [rootRelative, if_pos (hbyte ▸ hlast)] at h
  have hlength := congrArg List.length h
  have hne : bare ≠ [] := by
    rintro rfl
    exact absurd hlast (by simp)
  have hpos := List.length_pos_of_ne_nil hne
  rw [List.length_dropLast] at hlength
  omega

/-- An entry is matched in each case, with a root dot and without. -/
theorem sameName_map {f : UInt8 → UInt8} (hf : ∀ byte, f byte = 0x2e ↔ byte = 0x2e)
    (hlower : ∀ byte, toAsciiLowercase (f byte) = toAsciiLowercase byte)
    {labels : List (List UInt8)} {entry : List UInt8} (h : Written labels)
    (hentry : Spells entry labels) :
    SameName entry ((dotted labels).map f) ∧ SameName entry ((dotted labels).map f ++ [0x2e]) := by
  have hbare : rootRelative (dotted labels) = dotted labels := h.rootRelative_eq (.inl rfl)
  have hcase : (dotted labels).map toAsciiLowercase =
      ((dotted labels).map f).map toAsciiLowercase := by
    simp only [List.map_map, Function.comp_def, hlower]
  have hroot := bare_iff.mpr (h.rootRelative_eq hentry)
  exact ⟨⟨_, _, hroot, bare_iff.mpr (rootRelative_map hf hbare), hcase⟩,
    ⟨_, _, hroot, bare_iff.mpr (rootRelative_append _), hcase⟩⟩

/-- **Every spelling of an entry that is written is matched.** -/
theorem sameName_spellings {labels : List (List UInt8)} {entry name : List UInt8}
    (h : Written labels) (hentry : Spells entry labels) (hname : name ∈ spellings (dotted labels)) :
    SameName entry name := by
  have hown := sameName_map (f := id) (fun _ => Iff.rfl) (fun _ => rfl) h hentry
  have hlower := sameName_map (f := toAsciiLowercase) (forall_byte (by decide +kernel))
    toAsciiLowercase_idem h hentry
  have hupper := sameName_map (f := toAsciiUppercase) (forall_byte (by decide +kernel))
    toAsciiLowercase_toAsciiUppercase h hentry
  rw [List.map_id] at hown
  simp only [spellings, List.map_cons, List.map_nil, List.mem_append, List.mem_cons,
    List.not_mem_nil, or_false] at hname
  obtain (rfl | rfl | rfl) | rfl | rfl | rfl := hname
  · exact hown.1
  · exact hlower.1
  · exact hupper.1
  · exact hown.2
  · exact hlower.2
  · exact hupper.2

/-- Every entry that spells some labels is among their spellings. -/
theorem mem_spellings {labels : List (List UInt8)} {entry : List UInt8}
    (h : Spells entry labels) : entry ∈ spellings (dotted labels) := by
  obtain rfl | rfl := h <;> simp [spellings]

/-! ### Labels that are too long -/

/-- The labels of a name are the only ones it spells. -/
theorem Written.labels_unique {labels labels' : List (List UInt8)} {name : List UInt8}
    (h : Written labels) (h' : Written labels') (hname : Spells name labels)
    (hname' : Spells name labels') : labels = labels' := by
  rw [← h.splitOn_dotted, ← h'.splitOn_dotted, ← h.rootRelative_eq hname,
    h'.rootRelative_eq hname']

/-- **The validator lets through what a ClientHello can carry**, exactly when a name that is
written otherwise has no label that is too long; and the gate matches what it was let through in
each of its spellings. -/
theorem expected_sni_exact_iff (unprintable : Char → Bool) :
    (∀ (index : ℕ) (name : String),
      (validateExpectedSni unprintable index name = .ok () ↔ Carried (asBytes name)) ↔
        ∀ labels, Written labels → Spells (asBytes name) labels →
          ∀ label ∈ labels, label.length ≤ maxLabel) ∧
    ∀ configured : List String,
      (∀ entry ∈ configured, ∃ index, validateExpectedSni unprintable index entry = .ok ()) →
        (∀ name : List UInt8, (Names.new (configured.map asBytes)).accepts name = true ↔
          ∃ entry ∈ configured, SameName (asBytes entry) name) ∧
        ∀ entry ∈ configured, ∃ bare, Bare (asBytes entry) bare ∧ asBytes entry ∈ spellings bare ∧
          ∀ name ∈ spellings bare, (Names.new (configured.map asBytes)).accepts name = true := by
  refine ⟨fun index name => ?_, fun configured hvalid => ⟨fun name => ?_, fun entry hentry => ?_⟩⟩
  · rw [validateExpectedSni_ok_iff]
    constructor
    · intro h labels hwritten hspells label hlabel
      obtain ⟨labels', hwritten', hlengths, hspells'⟩ := h.mp ⟨labels, hwritten, hspells⟩
      obtain rfl := hwritten.labels_unique hwritten' hspells hspells'
      exact hlengths label hlabel
    · intro h
      constructor
      · rintro ⟨labels, hwritten, hspells⟩
        exact ⟨labels, hwritten, h labels hwritten hspells, hspells⟩
      · rintro ⟨labels, hwritten, -, hspells⟩
        exact ⟨labels, hwritten, hspells⟩
  · rw [accepts_iff]
    simp
  · obtain ⟨index, hok⟩ := hvalid entry hentry
    obtain ⟨labels, hwritten, hspells⟩ := validateExpectedSni_ok_iff.mp hok
    refine ⟨dotted labels, bare_iff.mpr (hwritten.rootRelative_eq hspells), mem_spellings hspells,
      fun name hname => ?_⟩
    exact accepts_iff.mpr ⟨asBytes entry, List.mem_map_of_mem hentry,
      sameName_spellings hwritten hspells hname⟩

/-- A listed name is let through by the validator, can be carried, and is matched in upper case with
a root dot. -/
theorem expected_sni_exact_iff_proxy :
    validateExpectedSni (fun _ => false) 0 "proxy.example" = .ok () ∧
      Carried (asBytes "proxy.example") ∧
      (Names.new [asBytes "proxy.example"]).accepts (asBytes "PROXY.EXAMPLE.") = true := by
  have hok : validateExpectedSni (fun _ => false) 0 "proxy.example" = .ok () := by decide +kernel
  have hwritten : Written [ascii "proxy", ascii "example"] :=
    ⟨List.cons_ne_nil _ _, by decide +kernel, by decide +kernel, by decide +kernel⟩
  have hspells : Spells (asBytes "proxy.example") [ascii "proxy", ascii "example"] :=
    .inl (by decide +kernel)
  obtain ⟨hcarried, hmatched⟩ := expected_sni_exact_iff fun _ => false
  refine ⟨hok, ((hcarried 0 _).mpr fun labels hlabels hspells' => ?_).mp hok, ?_⟩
  · obtain rfl := hlabels.labels_unique hwritten hspells' hspells
    decide
  · obtain ⟨-, hentries⟩ := hmatched ["proxy.example"] fun entry hentry =>
      ⟨0, List.mem_singleton.mp hentry ▸ hok⟩
    obtain ⟨bare, hbare, -, haccepts⟩ := hentries _ (List.mem_singleton_self _)
    obtain rfl := bare_iff.mp hbare
    exact haccepts _ (by decide +kernel)

/-- A run of one letter is a run of its byte. -/
theorem encodeChars_replicate (n : ℕ) :
    encodeChars (List.replicate n 'a') = List.replicate n 0x61 := by
  induction n with
  | zero => rfl
  | succ n ih =>
      rw [List.replicate_succ, encodeChars_cons, ih, List.replicate_succ]
      rfl

/-- A name of one label, of 64 bytes. -/
def longLabel : String :=
  String.ofList (List.replicate 64 'a')

/-- The validator lets a label of 64 bytes through. -/
theorem long_label_accepted :
    ¬∀ (unprintable : Char → Bool) (index : ℕ) (name : String),
      validateExpectedSni unprintable index name = .ok () ↔ Carried (asBytes name) := by
  intro h
  have hbytes : asBytes longLabel = dotted [List.replicate 64 0x61] := by
    rw [dotted, List.intercalate_singleton]
    exact (asBytes_ofList (List.replicate 64 'a')).trans (encodeChars_replicate 64)
  have hwritten : Written [List.replicate 64 0x61] := by
    refine ⟨List.cons_ne_nil _ _, ?_, by decide, by decide⟩
    intro label hlabel
    rw [List.mem_singleton.mp hlabel]
    exact ⟨by decide, List.all_eq_true.mp (by decide)⟩
  have hok : validateExpectedSni (fun _ => false) 0 longLabel = .ok () :=
    validateExpectedSni_ok_iff.mpr ⟨_, hwritten, .inl hbytes⟩
  obtain ⟨labels, hwritten', hlengths, hspells⟩ :=
    (h (fun _ => false) 0 longLabel).mp hok
  obtain rfl := hwritten.labels_unique hwritten' (.inl hbytes) hspells
  exact absurd (hlengths _ (List.mem_singleton.mpr rfl)) (by decide)

end Volto.Config
