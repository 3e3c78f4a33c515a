import Mathlib.Data.List.Forall2
import Mathlib.Data.List.Pairwise
import Volto.H3.WellFormed

/-!
# The Order of Pseudo-Headers

`build_request` fills its slots as the pseudo-headers arrive and judges them once all lines are
read, so nothing it returns depends on which of them came first. What the pass collects is decided
by which pseudo-headers there are, and by the regular fields in their order.

## Main results

* `pseudoValue_eq_some`: a slot holds what the one line with its name says.
* `readLines_perm`: the pass ends in the same state in whichever order the pseudo-headers come.
* `trims`: the value of a regular field loses the blanks at its two ends and nothing else.
* `pseudo_order_irrelevant`: the same request, with the regular fields in order.
-/

namespace Volto

open Qpack (Field)

/-! ### Trimmed values -/

/-- SP or HTAB. -/
def IsBlank (byte : UInt8) : Prop :=
  byte = 0x20 ∨ byte = 0x09

/-- The code's blanks are spaces and tabs. -/
theorem isOptionalWhitespace_iff (byte : UInt8) :
    isOptionalWhitespace byte = true ↔ IsBlank byte := by
  rw [isOptionalWhitespace, Bool.or_eq_true, beq_iff_eq, beq_iff_eq, IsBlank]

/-- `text` is what is left of `value` without the blanks at its two ends. -/
structure Trims (value text : List UInt8) : Prop where
  around : ∃ before after, value = before ++ text ++ after ∧
    (∀ byte ∈ before, IsBlank byte) ∧ ∀ byte ∈ after, IsBlank byte
  first : ∀ byte ∈ text.head?, ¬IsBlank byte
  last : ∀ byte ∈ text.getLast?, ¬IsBlank byte

/-- **A value is trimmed of its blanks.** -/
theorem trims (value : List UInt8) : Trims value (trimOptionalWhitespace value) := by
  have hfront := List.takeWhile_append_dropWhile (p := isOptionalWhitespace) (l := value)
  have hback : trimOptionalWhitespace value ++
      (value.dropWhile isOptionalWhitespace).rtakeWhile isOptionalWhitespace =
        value.dropWhile isOptionalWhitespace := List.rdropWhile_append_rtakeWhile
  constructor
  · refine ⟨value.takeWhile isOptionalWhitespace,
      (value.dropWhile isOptionalWhitespace).rtakeWhile isOptionalWhitespace, ?_, ?_, ?_⟩
    · rw [List.append_assoc, hback, hfront]
    · intro byte hmem
      exact (isOptionalWhitespace_iff byte).mp (List.mem_takeWhile_imp hmem)
    · intro byte hmem
      exact (isOptionalWhitespace_iff byte).mp (List.mem_rtakeWhile_imp hmem)
  · -- the first byte that is left is also the first one the front was trimmed to
    intro byte hfirst
    have hhead : (value.dropWhile isOptionalWhitespace).head? = some byte := by
      rw [← hback, List.head?_append]
      exact Option.or_eq_some_iff.mpr (.inl hfirst)
    have hnot := List.head?_dropWhile_not isOptionalWhitespace value
    rw [hhead] at hnot
    rw [← isOptionalWhitespace_iff]
    exact Bool.not_eq_true _ ▸ hnot
  · intro byte hlast
    obtain ⟨hne, rfl⟩ := List.mem_getLast?_eq_getLast hlast
    rw [← isOptionalWhitespace_iff]
    exact List.rdropWhile_last_not _ _ hne

/-! ### Lines in another order -/

section

variable {lines lines' pseudos pseudos' rest : List Field} {b b' : Builder}

/-- Between two pseudo-headers only their names matter. -/
theorem orderRule_iff {earlier line : Field} (hearlier : IsPseudo earlier) (hline : IsPseudo line) :
    OrderRule earlier line ↔ earlier.name ≠ line.name := by
  constructor
  · intro h
    exact h.pseudo_once hline
  · intro h
    exact ⟨fun _ => hearlier, fun _ => h, fun hhost => absurd hline (not_isPseudo_host hhost)⟩

/-- Among pseudo fields, the rule of order forbids repeated names only. -/
theorem pairwise_iff (hpseudo : ∀ line ∈ pseudos, IsPseudo line) :
    pseudos.Pairwise OrderRule ↔ pseudos.Pairwise fun earlier line => earlier.name ≠ line.name :=
  List.Pairwise.iff_of_mem fun hearlier hline =>
    orderRule_iff (hpseudo _ hearlier) (hpseudo _ hline)

/-- No pseudo-header is a regular field. -/
theorem filter_pseudos (hpseudo : ∀ line ∈ pseudos, IsPseudo line) :
    (pseudos.filter fun line => ¬IsPseudo line) = [] := by
  rw [List.filter_eq_nil_iff]
  intro line hmem
  simp [hpseudo line hmem]

/-- The rules are kept in whichever order the pseudo-headers come. -/
theorem LineRules.perm (hperm : pseudos.Perm pseudos') (hpseudo : ∀ line ∈ pseudos, IsPseudo line)
    (h : LineRules (pseudos ++ rest)) : LineRules (pseudos' ++ rest) := by
  have hpseudo' : ∀ line ∈ pseudos', IsPseudo line :=
    fun line hmem => hpseudo line (hperm.mem_iff.mpr hmem)
  obtain ⟨horder, hrest, hcross⟩ := List.pairwise_append.mp h.order
  constructor
  · intro line hmem
    exact h.line line ((hperm.append_right rest).mem_iff.mpr hmem)
  · refine List.pairwise_append.mpr ⟨?_, hrest, fun earlier hmem => ?_⟩
    · rw [pairwise_iff hpseudo] at horder
      rw [pairwise_iff hpseudo']
      exact hperm.pairwise horder Ne.symm
    · exact hcross earlier (hperm.mem_iff.mpr hmem)

/-- There is one line for each slot. -/
theorem LineRules.eq_of_name (h : LineRules lines) {p : Pseudo} {line line' : Field}
    (hmem : line ∈ lines) (hmem' : line' ∈ lines) (hname : line.name = p.name)
    (hname' : line'.name = p.name) : line = line' := by
  have horder : lines.Pairwise fun earlier line =>
      earlier.name = p.name → line.name = p.name → earlier = line := by
    refine h.order.imp fun {earlier line} hrule hearlier hline => ?_
    exact absurd (hearlier.trans hline.symm) (hrule.pseudo_once (Pseudo.isPseudo hline))
  exact horder.forall_of_forall_of_flip (fun _ _ _ _ => rfl)
    (horder.imp fun heq hline hearlier => (heq hearlier hline).symm) hmem hmem' hname hname'

/-- **A slot holds what the one line with its name says.** -/
theorem pseudoValue_eq_some (h : LineRules lines) {p : Pseudo} {value : List UInt8} :
    pseudoValue lines p = some value ↔
      ∃ line ∈ lines, line.name = p.name ∧ line.value = value := by
  have hfound : ∀ line, (lines.find? fun line => line.name = p.name) = some line →
      line ∈ lines ∧ line.name = p.name := by
    intro line hfind
    have hname := List.find?_some hfind
    exact ⟨List.mem_of_find?_eq_some hfind, of_decide_eq_true hname⟩
  rw [pseudoValue, Option.map_eq_some_iff]
  constructor
  · rintro ⟨line, hfind, hvalue⟩
    obtain ⟨hmem, hname⟩ := hfound line hfind
    exact ⟨line, hmem, hname, hvalue⟩
  · rintro ⟨line, hmem, hname, hvalue⟩
    have hsome : (lines.find? fun line => line.name = p.name).isSome = true :=
      List.find?_isSome.mpr ⟨line, hmem, by simpa using hname⟩
    obtain ⟨found, hfind⟩ := Option.isSome_iff_exists.mp hsome
    obtain ⟨hmem', hname'⟩ := hfound found hfind
    exact ⟨found, hfind, h.eq_of_name hmem' hmem hname' hname ▸ hvalue⟩

/-- What has been collected from some lines has been collected from any others that are the same,
with the same regular fields in the same order. -/
theorem Collected.congr (h : Collected lines b) (hrules : LineRules lines)
    (hrules' : LineRules lines') (hmem : ∀ line, line ∈ lines ↔ line ∈ lines')
    (hregular : (lines.filter fun line => ¬IsPseudo line) =
      lines'.filter fun line => ¬IsPseudo line) : Collected lines' b where
  slots p := by
    rw [h.slots]
    refine Option.ext fun value => ?_
    simp only [pseudoValue_eq_some hrules, pseudoValue_eq_some hrules', hmem]
  fields := hregular ▸ h.fields
  seen := by
    simp only [h.seen, hmem]

/-- What has been collected says all about the state of the pass. -/
theorem Collected.unique (h : Collected lines b) (h' : Collected lines b') : b = b' := by
  obtain ⟨slots, fields, regularFieldSeen⟩ := b
  obtain ⟨slots', fields', regularFieldSeen'⟩ := b'
  have hslots : slots = slots' := funext fun p => (h.slots p).trans (h'.slots p).symm
  have hbytes : Function.Injective fun field : List UInt8 × FieldValue =>
      (field.1, field.2.bytes) := by
    rintro ⟨name, value, hvalue⟩ ⟨name', value', hvalue'⟩ heq
    cases heq
    rfl
  have hfields : fields = fields' :=
    List.map_injective_iff.mpr hbytes (h.fields.trans h'.fields.symm)
  have hseen : regularFieldSeen = regularFieldSeen' :=
    Bool.eq_iff_iff.mpr (h.seen.trans h'.seen.symm)
  rw [hslots, hfields, hseen]

/-- **The pass ends in the same state** in whichever order the pseudo-headers come. -/
theorem readLines_perm (hperm : pseudos.Perm pseudos') (hpseudo : ∀ line ∈ pseudos, IsPseudo line)
    (h : (pseudos ++ rest).foldlM Builder.takeLine Builder.new = .ok b) :
    (pseudos' ++ rest).foldlM Builder.takeLine Builder.new = .ok b := by
  obtain ⟨hrules, hb⟩ := readLines_ok h
  have hrules' := hrules.perm hperm hpseudo
  have hb' : Collected (pseudos' ++ rest) b := by
    refine hb.congr hrules hrules' (fun line => (hperm.append_right rest).mem_iff) ?_
    rw [List.filter_append, List.filter_append, filter_pseudos hpseudo,
      filter_pseudos fun line hmem => hpseudo line (hperm.mem_iff.mpr hmem)]
  obtain ⟨b', hpass⟩ := exists_readLines hrules'
  rw [hpass, (readLines_ok hpass).2.unique hb']

/-- **A request is built alike from its pseudo fields in any order.** -/
theorem buildRequest_perm (hperm : pseudos.Perm pseudos')
    (hpseudo : ∀ line ∈ pseudos, IsPseudo line) {r : Request}
    (h : buildRequest (pseudos ++ rest) = .ok r) : buildRequest (pseudos' ++ rest) = .ok r := by
  obtain ⟨b, hpass, hfinish⟩ := Fallible.bind_eq_ok.mp h
  exact Fallible.bind_eq_ok.mpr ⟨b, readLines_perm hperm hpseudo hpass, hfinish⟩

end

/-- The fields of a request are the regular fields of its section, trimmed. -/
theorem buildRequest_fields {lines : List Field} {r : Request} (h : buildRequest lines = .ok r) :
    r.fields.map (fun field => (field.1, field.2.bytes)) =
      (lines.filter fun line => ¬IsPseudo line).map
        fun line => (line.name, trimOptionalWhitespace line.value) := by
  obtain ⟨b, hpass, hfinish⟩ := Fallible.bind_eq_ok.mp h
  obtain ⟨method, target, -, -, -, -, rfl⟩ := Builder.finish_eq_ok.mp hfinish
  exact (readLines_ok hpass).2.fields

/-- **The order of the pseudo-headers decides nothing**: in any other order they make the same
request, if they make one. Its fields are the regular fields in their order, each with the blanks
at the ends of its value dropped. -/
theorem pseudo_order_irrelevant (pseudos pseudos' regulars : List Field)
    (hpseudo : ∀ line ∈ pseudos, IsPseudo line) (hregular : ∀ line ∈ regulars, ¬IsPseudo line)
    (hperm : pseudos.Perm pseudos') (r : Request) :
    (buildRequest (pseudos ++ regulars) = .ok r ↔ buildRequest (pseudos' ++ regulars) = .ok r) ∧
    (buildRequest (pseudos ++ regulars) = .ok r →
      List.Forall₂ (fun line field => field.1 = line.name ∧ Trims line.value field.2.bytes)
        regulars r.fields) := by
  refine ⟨⟨buildRequest_perm hperm hpseudo, buildRequest_perm hperm.symm fun line hmem =>
    hpseudo line (hperm.mem_iff.mpr hmem)⟩, fun h => ?_⟩
  have hfields := buildRequest_fields h
  have hsection : ((pseudos ++ regulars).filter fun line => ¬IsPseudo line) = regulars := by
    have hself : (regulars.filter fun line => ¬IsPseudo line) = regulars := by
      rw [List.filter_eq_self]
      intro line hmem
      exact decide_eq_true (hregular line hmem)
    rw [List.filter_append, filter_pseudos hpseudo, hself, List.nil_append]
  rw [hsection, ← List.forall₂_eq_eq_eq, List.forall₂_map_left_iff, List.forall₂_map_right_iff]
    at hfields
  refine hfields.flip.imp fun line field heq => ?_
  cases field with
  | mk name value =>
      obtain ⟨hname, hvalue⟩ := Prod.mk.inj heq
      exact ⟨hname, hvalue ▸ trims line.value⟩

/-- A CONNECT whose `:authority` comes first is the same request as one whose `:method` does. -/
theorem connect_either_way :
    let method : Field := ⟨ascii ":method", ascii "CONNECT"⟩
    let authority : Field := ⟨ascii ":authority", ascii "a.test:443"⟩
    let regular : Field := ⟨ascii "x", ascii " y"⟩
    ∃ r, buildRequest ([method, authority] ++ [regular]) = .ok r ∧
      buildRequest ([authority, method] ++ [regular]) = .ok r ∧
      List.Forall₂ (fun line field => field.1 = line.name ∧ Trims line.value field.2.bytes)
        [regular] r.fields := by
  intro method authority regular
  have h : buildRequest ([method, authority] ++ [regular]) = .ok ⟨.connect, none,
      some (ascii "a.test:443"), none, none, none, [(ascii "x", ⟨ascii "y", by decide⟩)]⟩ := by
    decide +kernel
  have hirrelevant := pseudo_order_irrelevant [method, authority] [authority, method] [regular]
    (List.forall_mem_cons.mpr ⟨rfl, List.forall_mem_singleton.mpr rfl⟩)
    (List.forall_mem_singleton.mpr (by decide)) (.swap _ _ _)
  exact ⟨_, h, (hirrelevant _).1.mp h, (hirrelevant _).2 h⟩

end Volto
