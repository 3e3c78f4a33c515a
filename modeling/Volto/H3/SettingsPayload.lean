import Mathlib.Data.List.Induction
import Mathlib.Data.List.Nodup
import Volto.H3.Frame
import Volto.Varint

/-!
# SETTINGS Payloads

A SETTINGS payload told by how it is written: pairs of an identifier and a value, each a varint in
any of its forms. `parse_settings` of `h3/frame.rs` reads the pairs in order and answers the first
that is wrong: a pair that may not be there after those before it, or one that is not all there.
What it returns depends on which pairs there are and not on their order.

## Main results

* `exists_read`: what the loop has recorded after legal pairs.
* `reading`: everything a payload can be.
* `parseSettings_error`: the first fault decides the code.
* `parseSettings_perm`: the order of the pairs makes no difference.
* `settings_language`: all of it together.
-/

namespace Volto

namespace Frame

/-! ### Payloads -/

/-- A setting as it is spelled. -/
structure Setting where
  identifier : ℕ
  value : ℕ
  front : List UInt8
  back : List UInt8
  isVarint_front : IsVarint identifier front
  isVarint_back : IsVarint value back

namespace Setting

/-- The bytes of a setting: its identifier and its value. -/
def bytes (pair : Setting) : List UInt8 :=
  pair.front ++ pair.back

/-- A setting takes at least a byte. -/
theorem bytes_ne_nil (pair : Setting) : pair.bytes ≠ [] := by
  obtain ⟨w, t, -, -, -, h⟩ := pair.isVarint_front
  intro hnil
  have hfront := congrArg List.length (List.append_eq_nil_iff.mp hnil).1
  rw [h, BigEndian.length_toBytes] at hfront
  cases hfront

end Setting

/-- The payload that the pairs make. -/
def spell (pairs : List Setting) : List UInt8 :=
  pairs.flatMap Setting.bytes

/-- The pairs may stand in one payload. -/
structure Legal (pairs : List Setting) : Prop where
  once : (pairs.map Setting.identifier).Nodup
  unreserved : ∀ pair ∈ pairs, pair.identifier ∉ reservedHttp2Settings
  boolean : ∀ pair ∈ pairs, pair.identifier = settingH3Datagram → pair.value = 0 ∨ pair.value = 1

/-- A pair may not stand behind these. -/
inductive Faulty (pairs : List Setting) (pair : Setting) : Prop
  | reserved (h : pair.identifier ∈ reservedHttp2Settings)
  | repeated (h : pair.identifier ∈ pairs.map Setting.identifier)
  | notBoolean (h : pair.identifier = settingH3Datagram) (hvalue : 1 < pair.value)

/-- Bytes that are the start of a pair and not all of it. -/
structure Incomplete (rest : List UInt8) : Prop where
  ne_nil : rest ≠ []
  not_pair : ∀ (pair : Setting) (more : List UInt8), rest ≠ pair.bytes ++ more

/-- H3_DATAGRAM is among the pairs, with value 1. -/
def HasDatagrams (pairs : List Setting) : Prop :=
  ∃ pair ∈ pairs, pair.identifier = settingH3Datagram ∧ pair.value = 1

/-- **The first faulty pair is the last one, which is incomplete.** -/
def EndsMidPair (payload : List UInt8) : Prop :=
  ∃ pairs rest, payload = spell pairs ++ rest ∧ Legal pairs ∧ Incomplete rest

/-- **The first faulty pair is one that may not be there.** -/
def HasFaultyPair (payload : List UInt8) : Prop :=
  ∃ pairs pair rest, payload = spell (pairs ++ [pair]) ++ rest ∧ Legal pairs ∧ Faulty pairs pair

section

variable {pairs pairs' : List Setting} {pair : Setting} {settings : Settings} {seen : List ℕ}
  {payload rest : List UInt8}

/-- A further setting is spelled behind the others. -/
theorem spell_concat (pairs : List Setting) (pair : Setting) :
    spell (pairs ++ [pair]) = spell pairs ++ pair.bytes := by
  rw [spell, List.flatMap_append, List.flatMap_singleton]
  rfl

/-- No settings are legal settings. -/
theorem legal_nil : Legal [] :=
  ⟨List.nodup_nil, by simp, by simp⟩

/-- A further setting must not repeat an identifier. -/
theorem nodup_concat :
    ((pairs ++ [pair]).map Setting.identifier).Nodup ↔
      pair.identifier ∉ pairs.map Setting.identifier ∧ (pairs.map Setting.identifier).Nodup := by
  rw [List.map_append, List.map_singleton, ← List.concat_eq_append, List.nodup_concat]

/-- One pair more. -/
theorem legal_concat : Legal (pairs ++ [pair]) ↔ Legal pairs ∧ ¬Faulty pairs pair := by
  constructor
  · rintro ⟨honce, hunreserved, hboolean⟩
    rw [nodup_concat] at honce
    rw [List.forall_mem_append, List.forall_mem_singleton] at hunreserved hboolean
    refine ⟨⟨honce.2, hunreserved.1, hboolean.1⟩, ?_⟩
    rintro (hreserved | hrepeated | ⟨hidentifier, hvalue⟩)
    · exact hunreserved.2 hreserved
    · exact honce.1 hrepeated
    · have := hboolean.2 hidentifier
      omega
  · rintro ⟨⟨honce, hunreserved, hboolean⟩, hfaulty⟩
    refine ⟨?_, ?_, ?_⟩
    · rw [nodup_concat]
      exact ⟨fun hrepeated => hfaulty (.repeated hrepeated), honce⟩
    · rw [List.forall_mem_append, List.forall_mem_singleton]
      exact ⟨hunreserved, fun hreserved => hfaulty (.reserved hreserved)⟩
    · rw [List.forall_mem_append, List.forall_mem_singleton]
      refine ⟨hboolean, fun hidentifier => ?_⟩
      have hvalue : ¬1 < pair.value := fun h => hfaulty (.notBoolean hidentifier h)
      omega

/-- Datagrams are announced before the last setting or by it. -/
theorem hasDatagrams_concat :
    HasDatagrams (pairs ++ [pair]) ↔
      HasDatagrams pairs ∨ (pair.identifier = settingH3Datagram ∧ pair.value = 1) := by
  simp only [HasDatagrams, List.mem_append, List.mem_singleton, or_and_right, exists_or,
    exists_eq_left]

/-- Settings are legal in any order. -/
theorem Legal.perm (h : Legal pairs) (hperm : pairs.Perm pairs') : Legal pairs' where
  once := (hperm.map _).nodup_iff.mp h.once
  unreserved pair hpair := h.unreserved pair (hperm.mem_iff.mpr hpair)
  boolean pair hpair := h.boolean pair (hperm.mem_iff.mpr hpair)

/-- Datagrams are announced in any order. -/
theorem HasDatagrams.perm (hperm : pairs.Perm pairs') : HasDatagrams pairs ↔ HasDatagrams pairs' :=
  exists_congr fun _ => and_congr_left' hperm.mem_iff

/-- A list of pairs that is not legal has a first pair that may not be there. -/
theorem hasFaultyPair_of_not_legal (h : ¬Legal pairs) (rest : List UInt8) :
    HasFaultyPair (spell pairs ++ rest) := by
  induction pairs using List.reverseRecOn generalizing rest with
  | nil => exact absurd legal_nil h
  | append_singleton pairs pair ih =>
      by_cases hlegal : Legal pairs
      · have hfaulty : Faulty pairs pair := by
          by_contra hfaulty
          exact h (legal_concat.mpr ⟨hlegal, hfaulty⟩)
        exact ⟨pairs, pair, rest, rfl, hlegal, hfaulty⟩
      · rw [spell_concat, List.append_assoc]
        exact ih hlegal _

/-! ### One pair -/

/-- A pair that is spelled is read, whatever follows it. -/
theorem parseSettingsLoop_bytes (settings : Settings) (seen : List ℕ) (pair : Setting)
    (rest : List UInt8) :
    parseSettingsLoop settings seen (pair.bytes ++ rest) =
      if reservedHttp2Settings.contains pair.identifier then
        .error (settingsError s!"setting {hex pair.identifier} is reserved for HTTP/2")
      else if seen.contains pair.identifier then
        .error (settingsError s!"setting {hex pair.identifier} occurs more than once")
      else
        match applySetting settings pair.identifier pair.value with
        | .error violation => .error violation
        | .ok settings => parseSettingsLoop settings (pair.identifier :: seen) rest := by
  have hidentifier : peekVarint (pair.bytes ++ rest) = some (pair.identifier, pair.front.length) :=
    peekVarint_eq_some_iff.mpr
      ⟨pair.front, pair.back ++ rest, List.append_assoc _ _ _, pair.isVarint_front, rfl⟩
  have hdrop : (pair.bytes ++ rest).drop pair.front.length = pair.back ++ rest := by
    rw [Setting.bytes, List.append_assoc, List.drop_left]
  have hvalue : peekVarint ((pair.bytes ++ rest).drop pair.front.length) =
      some (pair.value, pair.back.length) :=
    peekVarint_eq_some_iff.mpr ⟨pair.back, rest, hdrop, pair.isVarint_back, rfl⟩
  have hpair := @parseSettingsLoop_of_peek settings seen _ _ _ _ _ hidentifier hvalue
  rw [hdrop, List.drop_left] at hpair
  exact hpair

/-- Two varints at the front are a pair, so the payload ends within one. -/
theorem parseSettingsLoop_incomplete (h : Incomplete rest) :
    parseSettingsLoop settings seen rest = .error truncatedSettings := by
  rw [parseSettingsLoop, if_neg h.ne_nil]
  split
  · rfl
  · rename_i identifier used hidentifier
    split
    · rfl
    · rename_i value used' hvalue
      obtain ⟨front, behind, rfl, hfront, rfl⟩ := peekVarint_eq_some_iff.mp hidentifier
      rw [List.drop_left] at hvalue
      obtain ⟨back, more, rfl, hback, rfl⟩ := peekVarint_eq_some_iff.mp hvalue
      exact absurd (List.append_assoc front back more).symm
        (h.not_pair ⟨identifier, value, front, back, hfront, hback⟩ more)

/-- What the loop has recorded after these pairs. -/
structure Read (pairs : List Setting) (settings : Settings) (seen : List ℕ) : Prop where
  mem_seen : ∀ identifier, identifier ∈ seen ↔ identifier ∈ pairs.map Setting.identifier
  datagrams_iff : settings.datagrams = true ↔ HasDatagrams pairs

/-- An empty payload reads as the defaults. -/
theorem read_nil : Read [] Settings.default [] where
  mem_seen _ := Iff.rfl
  datagrams_iff := by simp [Settings.default, HasDatagrams]

/-- A boolean setting above one is an error. -/
theorem boolean_eq_error (identifier : ℕ) {value : ℕ} (h : 1 < value) :
    ∃ detail, boolean identifier value = .error (settingsError detail) := by
  obtain ⟨value, rfl⟩ := Nat.exists_eq_add_of_le' h
  exact ⟨_, rfl⟩

/-- A faulty pair is answered with H3_SETTINGS_ERROR. -/
theorem Read.faulty (h : Read pairs settings seen) (hfaulty : Faulty pairs pair)
    (rest : List UInt8) :
    ∃ detail, parseSettingsLoop settings seen (pair.bytes ++ rest) =
      .error (settingsError detail) := by
  rw [parseSettingsLoop_bytes]
  split_ifs with hreserved hseen
  · exact ⟨_, rfl⟩
  · exact ⟨_, rfl⟩
  · rw [List.contains_iff_mem] at hreserved hseen
    obtain hfaulty | hfaulty | ⟨hidentifier, hvalue⟩ := hfaulty
    · exact absurd hfaulty hreserved
    · exact absurd ((h.mem_seen _).mpr hfaulty) hseen
    · -- the only value that is looked at
      obtain ⟨detail, herror⟩ := boolean_eq_error pair.identifier hvalue
      rw [applySetting, if_pos hidentifier, herror]
      exact ⟨detail, rfl⟩

/-- A pair that is not faulty is recorded. -/
theorem Read.concat (h : Read pairs settings seen) (hfaulty : ¬Faulty pairs pair) :
    ∃ settings', Read (pairs ++ [pair]) settings' (pair.identifier :: seen) ∧
      ∀ rest, parseSettingsLoop settings seen (pair.bytes ++ rest) =
        parseSettingsLoop settings' (pair.identifier :: seen) rest := by
  have hreserved : pair.identifier ∉ reservedHttp2Settings := fun h => hfaulty (.reserved h)
  have hrepeated : pair.identifier ∉ pairs.map Setting.identifier :=
    fun h => hfaulty (.repeated h)
  have hseen : pair.identifier ∉ seen := fun hseen => hrepeated ((h.mem_seen _).mp hseen)
  have hmem (identifier : ℕ) : identifier ∈ pair.identifier :: seen ↔
      identifier ∈ (pairs ++ [pair]).map Setting.identifier := by
    rw [List.map_append, List.map_singleton, List.mem_append, List.mem_singleton, List.mem_cons,
      h.mem_seen, or_comm]
  have hloop (rest : List UInt8) : parseSettingsLoop settings seen (pair.bytes ++ rest) =
      match applySetting settings pair.identifier pair.value with
      | .error violation => .error violation
      | .ok settings => parseSettingsLoop settings (pair.identifier :: seen) rest := by
    rw [parseSettingsLoop_bytes, if_neg (by rwa [List.contains_iff_mem]),
      if_neg (by rwa [List.contains_iff_mem])]
  by_cases hidentifier : pair.identifier = settingH3Datagram
  · have hvalue : ¬1 < pair.value := fun h => hfaulty (.notBoolean hidentifier h)
    have happly : applySetting settings pair.identifier pair.value =
        .ok { settings with datagrams := decide (pair.value = 1) } := by
      rw [applySetting, if_pos hidentifier]
      obtain hzero | hone : pair.value = 0 ∨ pair.value = 1 := by omega
      · rw [hzero]
        rfl
      · rw [hone]
        rfl
    refine ⟨_, ⟨hmem, ?_⟩, fun rest => by rw [hloop, happly]⟩
    -- it was not set before, for it was not there before
    have hbefore : ¬HasDatagrams pairs := by
      rintro ⟨before, hbefore, hsame, -⟩
      exact hrepeated (List.mem_map.mpr ⟨before, hbefore, hsame.trans hidentifier.symm⟩)
    rw [hasDatagrams_concat, decide_eq_true_iff]
    tauto
  · have happly : applySetting settings pair.identifier pair.value = .ok settings := by
      rw [applySetting, if_neg hidentifier]
    refine ⟨settings, ⟨hmem, ?_⟩, fun rest => by rw [hloop, happly]⟩
    rw [hasDatagrams_concat, h.datagrams_iff]
    tauto

/-! ### The payload -/

/-- **What the loop has recorded** after legal pairs. -/
theorem exists_read (h : Legal pairs) :
    ∃ settings seen, Read pairs settings seen ∧
      ∀ rest, parseSettings (spell pairs ++ rest) = parseSettingsLoop settings seen rest := by
  induction pairs using List.reverseRecOn with
  | nil => exact ⟨Settings.default, [], read_nil, fun _ => rfl⟩
  | append_singleton pairs pair ih =>
      obtain ⟨hlegal, hfaulty⟩ := legal_concat.mp h
      obtain ⟨settings, seen, hread, hloop⟩ := ih hlegal
      obtain ⟨settings', hread', hpair⟩ := hread.concat hfaulty
      refine ⟨settings', pair.identifier :: seen, hread', fun rest => ?_⟩
      rw [spell_concat, List.append_assoc, hloop, hpair]

/-- **Legal settings are accepted, and say what was spelled.** -/
theorem parseSettings_spell (h : Legal pairs) :
    ∃ settings, parseSettings (spell pairs) = .ok settings ∧
      (settings.datagrams = true ↔ HasDatagrams pairs) := by
  obtain ⟨settings, seen, hread, hloop⟩ := exists_read h
  refine ⟨settings, ?_, hread.datagrams_iff⟩
  rw [← List.append_nil (spell pairs), hloop, parseSettingsLoop, if_pos rfl]

/-- A payload that ends within a setting is an error. -/
theorem EndsMidPair.parseSettings_eq (h : EndsMidPair payload) :
    parseSettings payload = .error truncatedSettings := by
  obtain ⟨pairs, rest, rfl, hlegal, hincomplete⟩ := h
  obtain ⟨settings, seen, -, hloop⟩ := exists_read hlegal
  rw [hloop, parseSettingsLoop_incomplete hincomplete]

/-- A payload with an illegal setting is an error. -/
theorem HasFaultyPair.parseSettings_eq (h : HasFaultyPair payload) :
    ∃ detail, parseSettings payload = .error (settingsError detail) := by
  obtain ⟨pairs, pair, rest, rfl, hlegal, hfaulty⟩ := h
  obtain ⟨settings, seen, hread, hloop⟩ := exists_read hlegal
  rw [spell_concat, List.append_assoc, hloop]
  exact hread.faulty hfaulty rest

/-- What a payload can be. -/
inductive Reading (payload : List UInt8) : Prop
  | legal {pairs : List Setting} (h : payload = spell pairs) (hlegal : Legal pairs)
  | cut (h : EndsMidPair payload)
  | faulty (h : HasFaultyPair payload)

/-- From legal pairs on. -/
theorem reading_append (h : Legal pairs) (rest : List UInt8) : Reading (spell pairs ++ rest) := by
  induction hn : rest.length using Nat.strong_induction_on generalizing pairs rest with
  | _ n ih =>
      subst hn
      by_cases hnil : rest = []
      · rw [hnil, List.append_nil]
        exact .legal rfl h
      by_cases hincomplete : Incomplete rest
      · exact .cut ⟨pairs, rest, rfl, h, hincomplete⟩
      obtain ⟨pair, more, rfl⟩ : ∃ (pair : Setting) (more : List UInt8),
          rest = pair.bytes ++ more := by
        by_contra hnone
        push Not at hnone
        exact hincomplete ⟨hnil, hnone⟩
      rw [← List.append_assoc, ← spell_concat]
      by_cases hfaulty : Faulty pairs pair
      · exact .faulty ⟨pairs, pair, more, rfl, h, hfaulty⟩
      · refine ih more.length ?_ (legal_concat.mpr ⟨h, hfaulty⟩) more rfl
        rw [List.length_append]
        have := List.length_pos_iff.mpr pair.bytes_ne_nil
        omega

/-- **Everything a payload can be.** -/
theorem reading (payload : List UInt8) : Reading payload :=
  reading_append legal_nil payload

/-- The settings are what the legal pairs say. -/
theorem parseSettings_eq_ok_iff :
    parseSettings payload = .ok settings ↔
      ∃ pairs, payload = spell pairs ∧ Legal pairs ∧
        (settings.datagrams = true ↔ HasDatagrams pairs) := by
  constructor
  · intro h
    obtain ⟨rfl, hlegal⟩ | hcut | hfaulty := reading payload
    · obtain ⟨settings', hparse, hdatagrams⟩ := parseSettings_spell hlegal
      cases h.symm.trans hparse
      exact ⟨_, rfl, hlegal, hdatagrams⟩
    · cases h.symm.trans hcut.parseSettings_eq
    · obtain ⟨detail, herror⟩ := hfaulty.parseSettings_eq
      cases h.symm.trans herror
  · rintro ⟨pairs, rfl, hlegal, hdatagrams⟩
    obtain ⟨⟨datagrams⟩, hparse, hdatagrams'⟩ := parseSettings_spell hlegal
    rw [hparse]
    obtain ⟨expected⟩ := settings
    have hsame : datagrams = expected := by
      rw [Bool.eq_iff_iff]
      exact hdatagrams'.trans hdatagrams.symm
    rw [hsame]

/-- What is answered tells the two faults apart. -/
theorem EndsMidPair.not_hasFaultyPair (h : EndsMidPair payload) : ¬HasFaultyPair payload := by
  intro hfaulty
  obtain ⟨detail, herror⟩ := hfaulty.parseSettings_eq
  have hcode := congrArg Violation.code (Except.error.inj (h.parseSettings_eq.symm.trans herror))
  exact absurd hcode (by decide : Code.h3FrameError ≠ Code.h3SettingsError)

/-- **The first fault decides the code.** -/
theorem parseSettings_error {violation : Violation} (h : parseSettings payload = .error violation) :
    violation.isConnectionError = true ∧
      (violation.code = Code.h3FrameError ↔ EndsMidPair payload) ∧
      (violation.code = Code.h3SettingsError ↔ HasFaultyPair payload) ∧
      (EndsMidPair payload ↔ ¬HasFaultyPair payload) := by
  have hcodes : Code.h3FrameError ≠ Code.h3SettingsError := by decide
  obtain ⟨rfl, hlegal⟩ | hcut | hfaulty := reading payload
  · obtain ⟨settings, hparse, -⟩ := parseSettings_spell hlegal
    cases h.symm.trans hparse
  · have hnot := hcut.not_hasFaultyPair
    cases h.symm.trans hcut.parseSettings_eq
    exact ⟨rfl, iff_of_true rfl hcut, iff_of_false hcodes hnot, iff_of_true hcut hnot⟩
  · have hnot : ¬EndsMidPair payload := fun hcut => hcut.not_hasFaultyPair hfaulty
    obtain ⟨detail, herror⟩ := hfaulty.parseSettings_eq
    cases h.symm.trans herror
    exact ⟨rfl, iff_of_false hcodes.symm hnot, iff_of_true rfl hfaulty,
      iff_of_false hnot (not_not.mpr hfaulty)⟩

/-- Pairs that are accepted are legal. -/
theorem legal_of_parseSettings (h : parseSettings (spell pairs) = .ok settings) : Legal pairs := by
  by_contra hlegal
  obtain ⟨detail, herror⟩ := (hasFaultyPair_of_not_legal hlegal []).parseSettings_eq
  rw [List.append_nil] at herror
  cases h.symm.trans herror

/-- **The order of the pairs makes no difference.** -/
theorem parseSettings_perm (hperm : pairs.Perm pairs')
    (h : parseSettings (spell pairs) = .ok settings) :
    parseSettings (spell pairs') = .ok settings := by
  have hlegal := legal_of_parseSettings h
  obtain ⟨settings', hparse, hdatagrams⟩ := parseSettings_spell hlegal
  cases h.symm.trans hparse
  exact parseSettings_eq_ok_iff.mpr ⟨pairs', rfl, hlegal.perm hperm,
    hdatagrams.trans (HasDatagrams.perm hperm)⟩

/-- **SETTINGS payloads.** The payloads that are accepted are the spellings of pairs whose
identifiers are distinct and not reserved, H3_DATAGRAM being 0 or 1, and `datagrams` says whether
H3_DATAGRAM is among them with 1. Any other payload closes the connection, with H3_FRAME_ERROR when
the first faulty pair is the last one, cut short, and with H3_SETTINGS_ERROR when it is one that may
not be there. The order of accepted pairs makes no difference. -/
theorem settings_language :
    (∀ payload settings, parseSettings payload = .ok settings ↔
      ∃ pairs, payload = spell pairs ∧ Legal pairs ∧
        (settings.datagrams = true ↔ HasDatagrams pairs)) ∧
    (∀ payload violation, parseSettings payload = .error violation →
      violation.isConnectionError = true ∧
      (violation.code = Code.h3FrameError ↔ EndsMidPair payload) ∧
      (violation.code = Code.h3SettingsError ↔ HasFaultyPair payload) ∧
      (EndsMidPair payload ↔ ¬HasFaultyPair payload)) ∧
    (∀ pairs pairs' settings, pairs.Perm pairs' → parseSettings (spell pairs) = .ok settings →
      parseSettings (spell pairs') = .ok settings) :=
  ⟨fun _ _ => parseSettings_eq_ok_iff, fun _ _ => parseSettings_error,
    fun _ _ _ => parseSettings_perm⟩

end

end Frame

end Volto
