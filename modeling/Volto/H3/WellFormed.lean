import Mathlib.Data.List.Induction
import Volto.H3.Request

/-!
# Well-Formed Requests

What a request has to be, said of the field section as a whole, and that `build_request`
accepts exactly that. `WellFormed` has three kinds of rules: about the order of the lines and
the repetitions among them, about each regular field on its own, and about the shape of the
request, which only depends on the pseudo-headers and on Host.

The pass over the lines keeps `Collected`: the slots hold the pseudo-headers seen so far and
the collected fields are the regular lines seen so far, trimmed. One line is accepted exactly
when it keeps the rules with the lines before it (`takeLine_ok`, `takeLine_of_rules`), so the
pass succeeds exactly on the sections that keep the rules throughout.

## Main results

* `readLines_ok`, `exists_readLines`: the pass accepts exactly the sections that keep the line
  rules.
* `Builder.finish_eq_ok`: the final checks, one by one.
* `buildRequest_well_formed`: accepted exactly when well formed, malformed otherwise, and no
  control character in what is accepted.
-/

namespace Volto

open Qpack (Field)

/-! ### The rules -/

/-- The value of a pseudo-header in a section. -/
def pseudoValue (lines : List Field) (p : Pseudo) : Option (List UInt8) :=
  (lines.find? fun line => line.name = p.name).map Field.value

/-- The Host of a section, trimmed. -/
def hostValue (lines : List Field) : Option (List UInt8) :=
  (lines.find? fun line => line.name = ascii "host").map
    fun line => trimOptionalWhitespace line.value

/-- The rules a line has to keep on its own: a pseudo-header is a defined one, and a regular
field an acceptable one. -/
structure LineRule (line : Field) : Prop where
  pseudo_defined : IsPseudo line → ∃ p : Pseudo, line.name = p.name
  regular : ¬IsPseudo line → IsRegularField line

/-- The rules a line has to keep with an earlier one: no pseudo-header after a regular field,
no pseudo-header twice, and no second Host. -/
structure OrderRule (earlier line : Field) : Prop where
  pseudo_first : IsPseudo line → IsPseudo earlier
  pseudo_once : IsPseudo line → earlier.name ≠ line.name
  host_once : line.name = ascii "host" → earlier.name ≠ ascii "host"

/-- The authority a request other than a classic CONNECT names: `:authority`, with which a
Host field has to agree, or Host alone where there is no `:protocol`. -/
def NamesAuthority (slots : Pseudo → Option (List UInt8)) (host : Option (List UInt8))
    (authority : List UInt8) : Prop :=
  (slots .authority = some authority ∧ ∀ value ∈ host, value = authority) ∨
    (slots .authority = none ∧ slots .protocol = none ∧ host = some authority)

/-- The rules about the shape of a request. -/
structure WellShaped (slots : Pseudo → Option (List UInt8)) (host : Option (List UInt8)) :
    Prop where
  /-- There is a method, and it is a token. -/
  method : ∃ method, slots .method = some method ∧ IsToken method
  /-- Only a CONNECT has a protocol, and it is a token. -/
  protocol : ∀ protocol, slots .protocol = some protocol →
    slots .method = some (ascii "CONNECT") ∧ IsToken protocol
  /-- A CONNECT without a protocol is an authority and nothing else. -/
  connect : slots .method = some (ascii "CONNECT") → slots .protocol = none →
    slots .scheme = none ∧ slots .path = none ∧
      ∃ authority, slots .authority = some authority ∧ IsAuthority authority
  /-- Every other request has a scheme, a path and an authority. -/
  target : ¬(slots .method = some (ascii "CONNECT") ∧ slots .protocol = none) →
    (∃ scheme, slots .scheme = some scheme ∧ IsScheme scheme) ∧
    (∃ target, slots .path = some target ∧
      (IsAbsolutePath target ∨ (target = ascii "*" ∧ slots .protocol = none))) ∧
    ∃ authority, NamesAuthority slots host authority ∧ IsAuthority authority

/-- A well-formed field section. -/
structure WellFormed (lines : List Field) : Prop where
  line : ∀ line ∈ lines, LineRule line
  order : lines.Pairwise OrderRule
  shape : WellShaped (pseudoValue lines) (hostValue lines)

/-! ### The names of the pseudo-headers -/

/-- Two pseudo fields have two names. -/
theorem Pseudo.name_injective {p q : Pseudo} (h : p.name = q.name) : p = q := by
  cases p <;> cases q <;> first | rfl | exact absurd h (by decide)

/-- A slot is found by its name, and only by it. -/
theorem Pseudo.fromName_eq_some {bytes : List UInt8} {p : Pseudo} :
    fromName bytes = some p ↔ bytes = p.name := by
  rw [fromName]
  constructor
  · intro h
    split_ifs at h <;> cases h <;> assumption
  · rintro rfl
    cases p <;> decide

/-- The name of a pseudo-header begins with a colon. -/
theorem Pseudo.isPseudo {line : Field} {p : Pseudo} (h : line.name = p.name) :
    IsPseudo line := by
  rw [IsPseudo, h]
  cases p <;> decide

/-- Host is a regular field. -/
theorem not_isPseudo_host {line : Field} (h : line.name = ascii "host") : ¬IsPseudo line := by
  rw [IsPseudo, h]
  decide

/-! ### One line -/

namespace Builder

/-- Everything taking one line can do. -/
theorem takeLine_eq_ok {b b' : Builder} {line : Field} :
    b.takeLine line = .ok b' ↔
      (¬IsPseudo line ∧ ∃ fields, addField b.fields line.name line.value = .ok fields ∧
        b' = { b with fields := fields, regularFieldSeen := true }) ∨
      (IsPseudo line ∧ b.regularFieldSeen = false ∧
        ∃ p, line.name = Pseudo.name p ∧ b.slots p = none ∧
          b' = { b with slots := Function.update b.slots p (some line.value) }) := by
  rw [takeLine]
  constructor
  · intro h
    split at h
    · rename_i hregular
      obtain ⟨fields, hadd, h⟩ := Fallible.bind_eq_ok.mp h
      cases h
      exact .inl ⟨hregular, fields, hadd, rfl⟩
    · rename_i hpseudo
      split_ifs at h with hseen
      split at h
      · cases h
      · rename_i p hname
        split_ifs at h with hslot
        cases h
        exact .inr ⟨not_not.mp hpseudo, Bool.eq_false_of_not_eq_true hseen, p,
          Pseudo.fromName_eq_some.mp hname, Option.not_isSome_iff_eq_none.mp hslot, rfl⟩
  · rintro (⟨hregular, fields, hadd, rfl⟩ | ⟨hpseudo, hseen, p, hname, hslot, rfl⟩)
    · rw [if_pos hregular, hadd]
      rfl
    · rw [if_neg (not_not.mpr hpseudo), hseen, if_neg Bool.false_ne_true,
        Pseudo.fromName_eq_some.mpr hname]
      simp only
      rw [hslot, if_neg (by decide)]

end Builder

/-- What the pass holds after `lines`: their pseudo-headers in the slots, and their regular
fields, trimmed. -/
structure Collected (lines : List Field) (b : Builder) : Prop where
  slots : ∀ p, b.slots p = pseudoValue lines p
  fields : b.fields.map (fun field => (field.1, field.2.bytes)) =
    (lines.filter fun line => ¬IsPseudo line).map
      fun line => (line.name, trimOptionalWhitespace line.value)
  seen : b.regularFieldSeen = true ↔ ∃ line ∈ lines, ¬IsPseudo line

/-- A slot is empty exactly when no line so far has its name. -/
theorem pseudoValue_eq_none {lines : List Field} {p : Pseudo} :
    pseudoValue lines p = none ↔ ∀ line ∈ lines, line.name ≠ p.name := by
  rw [pseudoValue, Option.map_eq_none_iff, List.find?_eq_none]
  constructor
  · intro h line hmem hname
    exact h line hmem (decide_eq_true hname)
  · intro h line hmem hname
    exact h line hmem (of_decide_eq_true hname)

/-- There is a Host exactly when a line so far is one. -/
theorem hostValue_isSome {lines : List Field} :
    (hostValue lines).isSome = true ↔ ∃ line ∈ lines, line.name = ascii "host" := by
  rw [hostValue, Option.isSome_map, List.find?_isSome]
  constructor
  · rintro ⟨line, hmem, hname⟩
    exact ⟨line, hmem, of_decide_eq_true hname⟩
  · rintro ⟨line, hmem, hname⟩
    exact ⟨line, hmem, decide_eq_true hname⟩

/-- The line rules of the lines so far. -/
structure LineRules (lines : List Field) : Prop where
  line : ∀ line ∈ lines, LineRule line
  order : lines.Pairwise OrderRule

/-- **The collected Host is the section's**: the collected names are lowercase, so the lookup
that folds case is an exact one. -/
theorem Collected.host {lines : List Field} {b : Builder} (h : Collected lines b)
    (hrules : ∀ line ∈ lines, LineRule line) :
    (b.fields.get (ascii "host")).map FieldValue.bytes = hostValue lines := by
  have hlower : ∀ field ∈ b.fields, ∀ byte ∈ field.1, isAsciiUppercase byte = false := by
    intro field hmem
    have hfield : (field.1, field.2.bytes) ∈ b.fields.map fun f => (f.1, f.2.bytes) :=
      List.mem_map_of_mem hmem
    rw [h.fields] at hfield
    obtain ⟨line, hline, heq⟩ := List.mem_map.mp hfield
    obtain ⟨hline, hregular⟩ := List.mem_filter.mp hline
    rw [← (Prod.mk.inj heq).1]
    exact ((hrules line hline).regular (of_decide_eq_true hregular)).name.2
  have hname : ∀ byte ∈ ascii "host", isAsciiUppercase byte = false := by
    simp only [← Bool.not_eq_true', ← List.all_eq_true]
    decide
  -- both sides look the name up in the same list of names and trimmed values
  have hleft : (b.fields.find? fun field => field.1 = ascii "host").map
        (fun field => field.2.bytes) =
      ((b.fields.map fun f => (f.1, f.2.bytes)).find?
        fun field => field.1 = ascii "host").map Prod.snd := by
    rw [List.find?_map, Option.map_map]
    rfl
  have hright : ((lines.filter fun line => ¬IsPseudo line).map
        fun line => (line.name, trimOptionalWhitespace line.value)).find?
          (fun field => field.1 = ascii "host") =
      (lines.find? fun line => line.name = ascii "host").map
        fun line => (line.name, trimOptionalWhitespace line.value) := by
    rw [List.find?_map, List.find?_filter]
    congr 2
    funext line
    by_cases hhost : line.name = ascii "host"
    · simp [hhost, not_isPseudo_host hhost]
    · simp [hhost]
  rw [Fields.get_of_lower hlower hname, Option.map_map, hostValue]
  change (b.fields.find? fun field => field.1 = ascii "host").map
    (fun field => field.2.bytes) = _
  rw [hleft, h.fields, hright, Option.map_map]
  rfl

/-- A Host has been collected exactly when a line so far is one. -/
theorem Collected.contains_host {lines : List Field} {b : Builder} (h : Collected lines b)
    (hrules : ∀ line ∈ lines, LineRule line) :
    b.fields.contains (ascii "host") = true ↔ ∃ line ∈ lines, line.name = ascii "host" := by
  rw [Fields.contains, ← Option.isSome_map (f := FieldValue.bytes), h.host hrules,
    hostValue_isSome]

/-- The slots after one more pseudo-header. -/
theorem pseudoValue_concat_pseudo {lines : List Field} {line : Field} {p : Pseudo}
    (hname : line.name = p.name) (hnone : pseudoValue lines p = none) (q : Pseudo) :
    pseudoValue (lines ++ [line]) q =
      Function.update (pseudoValue lines) p (some line.value) q := by
  rw [pseudoValue, List.find?_append]
  by_cases hq : q = p
  · subst hq
    rw [Function.update_self]
    rw [pseudoValue, Option.map_eq_none_iff] at hnone
    rw [hnone, Option.none_or, List.find?_singleton, if_pos (decide_eq_true hname)]
    rfl
  · have hne : ¬decide (line.name = q.name) = true := by
      intro h
      exact hq (Pseudo.name_injective ((of_decide_eq_true h).symm.trans hname))
    rw [Function.update_of_ne hq, List.find?_singleton, if_neg hne, Option.or_none]
    rfl

/-- The slots after one more regular field. -/
theorem pseudoValue_concat_regular {lines : List Field} {line : Field} (h : ¬IsPseudo line)
    (q : Pseudo) : pseudoValue (lines ++ [line]) q = pseudoValue lines q := by
  have hne : ¬decide (line.name = q.name) = true := by
    intro hname
    exact h (Pseudo.isPseudo (of_decide_eq_true hname))
  rw [pseudoValue, List.find?_append, List.find?_singleton, if_neg hne, Option.or_none]
  rfl

/-- A regular field that is taken is collected. -/
theorem Collected.concat_regular {lines : List Field} {line : Field} {b : Builder}
    {value : FieldValue} (h : Collected lines b) (hregular : ¬IsPseudo line)
    (hvalue : value.bytes = trimOptionalWhitespace line.value) :
    Collected (lines ++ [line])
      { b with fields := b.fields.append line.name value, regularFieldSeen := true } where
  slots p := by rw [pseudoValue_concat_regular hregular, ← h.slots]
  fields := by
    have hfilter : ([line].filter fun line => ¬IsPseudo line) = [line] := by
      simp [hregular]
    rw [Fields.append, List.map_append, h.fields, List.filter_append, hfilter, List.map_append,
      List.map_singleton, List.map_singleton, hvalue]
  seen := by
    refine iff_of_true rfl ⟨line, ?_, hregular⟩
    rw [List.mem_append]
    exact .inr (List.mem_singleton_self line)

/-- A pseudo-header that is taken is collected. -/
theorem Collected.concat_pseudo {lines : List Field} {line : Field} {b : Builder} {p : Pseudo}
    (h : Collected lines b) (hname : line.name = p.name) (hnone : b.slots p = none)
    (hseen : b.regularFieldSeen = false) :
    Collected (lines ++ [line])
      { b with slots := Function.update b.slots p (some line.value) } where
  slots q := by
    rw [h.slots] at hnone
    rw [pseudoValue_concat_pseudo hname hnone, funext h.slots]
  fields := by
    have hfilter : ([line].filter fun line => ¬IsPseudo line) = [] := by
      simp [Pseudo.isPseudo hname]
    rw [h.fields, List.filter_append, hfilter, List.append_nil]
  seen := by
    refine iff_of_false (by rw [hseen]; exact Bool.false_ne_true) ?_
    rintro ⟨line', hmem, hregular⟩
    rcases List.mem_append.mp hmem with hmem | hmem
    · rw [← Bool.not_eq_true, h.seen] at hseen
      exact hseen ⟨line', hmem, hregular⟩
    · cases List.mem_singleton.mp hmem
      exact hregular (Pseudo.isPseudo hname)

/-! ### The pass -/

/-- **One line that is taken keeps the rules** with the lines before it, and is collected. -/
theorem takeLine_ok {lines : List Field} {line : Field} {b b' : Builder}
    (hrules : ∀ line ∈ lines, LineRule line) (hb : Collected lines b)
    (h : b.takeLine line = .ok b') :
    LineRule line ∧ (∀ earlier ∈ lines, OrderRule earlier line) ∧
      Collected (lines ++ [line]) b' := by
  rcases Builder.takeLine_eq_ok.mp h with
    ⟨hregular, fields, hadd, rfl⟩ | ⟨hpseudo, hseen, p, hname, hnone, rfl⟩
  · obtain ⟨hfield, hhost, value, hvalue, rfl⟩ := addField_eq_ok.mp hadd
    refine ⟨⟨fun h => (hregular h).elim, fun _ => hfield⟩, fun earlier hmem => ?_,
      hb.concat_regular hregular hvalue⟩
    refine ⟨fun h => (hregular h).elim, fun h => (hregular h).elim, fun hname hearlier => ?_⟩
    exact hhost ⟨hname, (hb.contains_host hrules).mpr ⟨earlier, hmem, hearlier⟩⟩
  · refine ⟨⟨fun _ => ⟨p, hname⟩, fun h => (h hpseudo).elim⟩, fun earlier hmem => ?_,
      hb.concat_pseudo hname hnone hseen⟩
    refine ⟨fun _ => ?_, fun _ => ?_, fun hhost => (not_isPseudo_host hhost hpseudo).elim⟩
    · by_contra hearlier
      rw [← Bool.not_eq_true, hb.seen] at hseen
      exact hseen ⟨earlier, hmem, hearlier⟩
    · rw [hb.slots, pseudoValue_eq_none] at hnone
      rw [hname]
      exact hnone earlier hmem

/-- **One line that keeps the rules** with the lines before it is taken. -/
theorem takeLine_of_rules {lines : List Field} {line : Field} {b : Builder}
    (hrules : ∀ line ∈ lines, LineRule line) (hb : Collected lines b) (hline : LineRule line)
    (horder : ∀ earlier ∈ lines, OrderRule earlier line) :
    ∃ b', b.takeLine line = .ok b' := by
  by_cases hpseudo : IsPseudo line
  · obtain ⟨p, hname⟩ := hline.pseudo_defined hpseudo
    have hseen : b.regularFieldSeen = false := by
      rw [← Bool.not_eq_true, hb.seen]
      rintro ⟨earlier, hmem, hregular⟩
      exact hregular ((horder earlier hmem).pseudo_first hpseudo)
    have hnone : b.slots p = none := by
      rw [hb.slots, pseudoValue_eq_none]
      intro earlier hmem
      rw [← hname]
      exact (horder earlier hmem).pseudo_once hpseudo
    exact ⟨_, Builder.takeLine_eq_ok.mpr (.inr ⟨hpseudo, hseen, p, hname, hnone, rfl⟩)⟩
  · have hfield := hline.regular hpseudo
    have hhost : ¬(line.name = ascii "host" ∧ b.fields.contains (ascii "host") = true) := by
      rintro ⟨hname, hcontains⟩
      obtain ⟨earlier, hmem, hearlier⟩ := (hb.contains_host hrules).mp hcontains
      exact (horder earlier hmem).host_once hname hearlier
    have hadd := addField_eq_ok.mpr ⟨hfield, hhost, ⟨_, hfield.value⟩, rfl, rfl⟩
    exact ⟨_, Builder.takeLine_eq_ok.mpr (.inl ⟨hpseudo, _, hadd, rfl⟩)⟩

/-- The rules for one more line. -/
theorem lineRules_concat {lines : List Field} {line : Field} :
    LineRules (lines ++ [line]) ↔
      LineRules lines ∧ LineRule line ∧ ∀ earlier ∈ lines, OrderRule earlier line := by
  constructor
  · rintro ⟨hline, horder⟩
    rw [List.pairwise_append] at horder
    obtain ⟨horder, -, hlast⟩ := horder
    refine ⟨⟨fun line hmem => hline line (List.mem_append_left _ hmem), horder⟩,
      hline line (List.mem_append_right _ (List.mem_singleton_self line)), fun earlier hmem => ?_⟩
    exact hlast earlier hmem line (List.mem_singleton_self line)
  · rintro ⟨⟨hline, horder⟩, hrule, hlast⟩
    constructor
    · intro line' hmem
      rcases List.mem_append.mp hmem with hmem | hmem
      · exact hline line' hmem
      · cases List.mem_singleton.mp hmem
        exact hrule
    · rw [List.pairwise_append]
      refine ⟨horder, List.pairwise_singleton _ _, fun earlier hmem line' hmem' => ?_⟩
      cases List.mem_singleton.mp hmem'
      exact hlast earlier hmem

/-- One more line is read after the others. -/
theorem readLines_concat (lines : List Field) (line : Field) (b : Builder) :
    (lines ++ [line]).foldlM Builder.takeLine b =
      lines.foldlM Builder.takeLine b >>= fun b => b.takeLine line := by
  rw [List.foldlM_append]
  congr 1
  funext b
  rw [List.foldlM_cons]
  cases b.takeLine line <;> rfl

/-- **A pass that succeeds has seen the rules kept** and has collected the section. -/
theorem readLines_ok {lines : List Field} {b : Builder}
    (h : lines.foldlM Builder.takeLine Builder.new = .ok b) :
    LineRules lines ∧ Collected lines b := by
  induction lines using List.reverseRecOn generalizing b with
  | nil =>
      cases h
      exact ⟨⟨by simp, List.Pairwise.nil⟩, ⟨fun p => rfl, rfl, by simp [Builder.new]⟩⟩
  | append_singleton lines line ih =>
      rw [readLines_concat, Fallible.bind_eq_ok] at h
      obtain ⟨b₀, hpass, htake⟩ := h
      obtain ⟨hrules, hb⟩ := ih hpass
      obtain ⟨hline, horder, hb'⟩ := takeLine_ok hrules.line hb htake
      exact ⟨lineRules_concat.mpr ⟨hrules, hline, horder⟩, hb'⟩

/-- **A section that keeps the line rules is read to its end.** -/
theorem exists_readLines {lines : List Field} (h : LineRules lines) :
    ∃ b, lines.foldlM Builder.takeLine Builder.new = .ok b := by
  induction lines using List.reverseRecOn with
  | nil => exact ⟨_, rfl⟩
  | append_singleton lines line ih =>
      obtain ⟨hrules, hline, horder⟩ := lineRules_concat.mp h
      obtain ⟨b, hpass⟩ := ih hrules
      obtain ⟨b', htake⟩ := takeLine_of_rules hrules.line (readLines_ok hpass).2 hline horder
      exact ⟨b', by rw [readLines_concat, hpass, Fallible.ok_bind, htake]⟩

/-! ### The final checks -/

namespace Builder

/-- The authority the checks settle on. -/
theorem named_eq_ok {b : Builder} {authority : List UInt8} :
    b.named = .ok authority ↔
      NamesAuthority b.slots ((b.fields.get (ascii "host")).map FieldValue.bytes) authority := by
  rw [named, NamesAuthority]
  cases b.slots .authority with
  | some value =>
      cases b.fields.get (ascii "host") with
      | some host =>
          simp only
          split_ifs with hagree
          · constructor
            · intro h
              cases h
            · rintro (⟨⟨⟩, hall⟩ | ⟨⟨⟩, -⟩)
              exact (hagree (hall host.bytes rfl).symm).elim
          · rw [not_not] at hagree
            constructor
            · rintro ⟨⟩
              refine .inl ⟨rfl, ?_⟩
              rintro _ ⟨⟩
              exact hagree.symm
            · rintro (⟨⟨⟩, -⟩ | ⟨⟨⟩, -⟩)
              rfl
      | none =>
          constructor
          · rintro ⟨⟩
            exact .inl ⟨rfl, by rintro _ ⟨⟩⟩
          · rintro (⟨⟨⟩, -⟩ | ⟨⟨⟩, -⟩)
            rfl
  | none =>
      simp only
      split_ifs with hprotocol
      · constructor
        · intro h
          cases h
        · rintro (⟨⟨⟩, -⟩ | ⟨-, hnone, -⟩)
          rw [hnone] at hprotocol
          cases hprotocol
      · rw [Option.not_isSome_iff_eq_none] at hprotocol
        cases b.fields.get (ascii "host") with
        | some host =>
            constructor
            · rintro ⟨⟩
              exact .inr ⟨trivial, hprotocol, rfl⟩
            · rintro (⟨⟨⟩, -⟩ | ⟨-, -, ⟨⟩⟩)
              rfl
        | none =>
            constructor
            · intro h
              cases h
            · rintro (⟨⟨⟩, -⟩ | ⟨-, -, ⟨⟩⟩)

/-- The target of a classic CONNECT. -/
theorem connectTarget_eq_ok {b : Builder} {target : Target} :
    b.connectTarget = .ok target ↔
      b.slots .scheme = none ∧ b.slots .path = none ∧
        ∃ authority, b.slots .authority = some authority ∧ IsAuthority authority ∧
          target = ⟨none, some authority, none, none⟩ := by
  rw [connectTarget]
  constructor
  · intro h
    split_ifs at h with hextra
    rw [not_or, Option.not_isSome_iff_eq_none, Option.not_isSome_iff_eq_none] at hextra
    obtain ⟨authority, hslot, h⟩ := Fallible.bind_eq_ok.mp h
    obtain ⟨text, hparse, hok⟩ := Fallible.bind_eq_ok.mp h
    obtain ⟨hauthority, rfl⟩ := uriAuthority_eq_ok.mp hparse
    cases hok
    exact ⟨hextra.1, hextra.2, text, Fallible.okOr_eq_ok.mp hslot, hauthority, rfl⟩
  · rintro ⟨hscheme, hpath, authority, hslot, hauthority, rfl⟩
    rw [hscheme, hpath, if_neg (by decide), Fallible.okOr_eq_ok.mpr hslot, Fallible.ok_bind,
      uriAuthority_eq_ok.mpr ⟨hauthority, rfl⟩, Fallible.ok_bind]

/-- The target of every other request. -/
theorem uriTarget_eq_ok {b : Builder} {target : Target} :
    b.uriTarget = .ok target ↔
      ∃ scheme value authority path query, b.slots .scheme = some scheme ∧ IsScheme scheme ∧
        b.slots .path = some value ∧
        splitTarget value (b.slots .protocol).isSome = .ok (path, query) ∧
        b.named = .ok authority ∧ IsAuthority authority ∧
        target = ⟨some scheme, some authority, some path, query⟩ := by
  rw [uriTarget]
  constructor
  · intro h
    obtain ⟨scheme, hscheme, h⟩ := Fallible.bind_eq_ok.mp h
    obtain ⟨value, hvalue, h⟩ := Fallible.bind_eq_ok.mp h
    obtain ⟨authority, hnamed, h⟩ := Fallible.bind_eq_ok.mp h
    obtain ⟨⟨path, query⟩, hsplit, h⟩ := Fallible.bind_eq_ok.mp h
    obtain ⟨text, hparse, h⟩ := Fallible.bind_eq_ok.mp h
    obtain ⟨text', hparse', hok⟩ := Fallible.bind_eq_ok.mp h
    obtain ⟨hscheme', rfl⟩ := uriScheme_eq_ok.mp hparse
    obtain ⟨hauthority, rfl⟩ := uriAuthority_eq_ok.mp hparse'
    cases hok
    exact ⟨text, value, text', path, query, Fallible.okOr_eq_ok.mp hscheme, hscheme',
      Fallible.okOr_eq_ok.mp hvalue, hsplit, hnamed, hauthority, rfl⟩
  · rintro ⟨scheme, value, authority, path, query, hslot, hscheme, hvalue, hsplit, hnamed,
      hauthority, rfl⟩
    rw [Fallible.okOr_eq_ok.mpr hslot, Fallible.ok_bind, Fallible.okOr_eq_ok.mpr hvalue,
      Fallible.ok_bind, hnamed, Fallible.ok_bind, hsplit, Fallible.ok_bind]
    simp only
    rw [uriScheme_eq_ok.mpr ⟨hscheme, rfl⟩, Fallible.ok_bind,
      uriAuthority_eq_ok.mpr ⟨hauthority, rfl⟩, Fallible.ok_bind]

/-- The protocol of the request. -/
theorem protocol_eq_ok {b : Builder} {protocol : Option (List UInt8)} :
    b.protocol = .ok protocol ↔
      (∀ value, b.slots .protocol = some value → IsToken value) ∧
        protocol = b.slots .protocol := by
  rw [Builder.protocol]
  cases b.slots .protocol with
  | none =>
      constructor
      · rintro ⟨⟩
        exact ⟨by rintro _ ⟨⟩, rfl⟩
      · rintro ⟨-, rfl⟩
        rfl
  | some value =>
      simp only
      rw [Fallible.bind_eq_ok]
      constructor
      · rintro ⟨text, hparse, hok⟩
        obtain ⟨htoken, rfl⟩ := connectProtocol_eq_ok.mp hparse
        cases hok
        refine ⟨?_, rfl⟩
        rintro _ ⟨⟩
        exact htoken
      · rintro ⟨htoken, rfl⟩
        exact ⟨value, connectProtocol_eq_ok.mpr ⟨htoken value rfl, rfl⟩, rfl⟩

/-- The method a `:method` value names. -/
def methodOf (value : List UInt8) : Method :=
  if value = ascii "CONNECT" then .connect else .other value

/-- The method is CONNECT exactly if it is spelled so. -/
theorem methodOf_eq_connect {value : List UInt8} :
    methodOf value = .connect ↔ value = ascii "CONNECT" := by
  rw [methodOf]
  split_ifs with h
  · exact iff_of_true rfl h
  · exact iff_of_false (by rintro ⟨⟩) h

/-- **The final checks, one by one.** -/
theorem finish_eq_ok {b : Builder} {r : Request} :
    b.finish = .ok r ↔
      ∃ method target, b.slots .method = some method ∧ IsToken method ∧
        (∀ protocol, b.slots .protocol = some protocol →
          method = ascii "CONNECT" ∧ IsToken protocol) ∧
        b.target (methodOf method) = .ok target ∧
        r = ⟨methodOf method, target.scheme, target.authority, target.path, target.query,
          b.slots .protocol, b.fields⟩ := by
  rw [finish]
  rw [Fallible.bind_eq_ok]
  constructor
  · rintro ⟨method, hmethod, h⟩
    obtain ⟨parsed, hparse, h⟩ := Fallible.bind_eq_ok.mp h
    obtain ⟨htoken, hparsed⟩ := Method.parse_eq_some.mp (Fallible.okOr_eq_ok.mp hparse)
    change parsed = methodOf method at hparsed
    split_ifs at h with hcontext
    obtain ⟨target, htarget, h⟩ := Fallible.bind_eq_ok.mp h
    obtain ⟨protocol, hprotocol, hok⟩ := Fallible.bind_eq_ok.mp h
    obtain ⟨htokens, rfl⟩ := protocol_eq_ok.mp hprotocol
    cases hok
    subst hparsed
    refine ⟨method, target, Fallible.okOr_eq_ok.mp hmethod, htoken, fun value hvalue => ?_,
      htarget, rfl⟩
    refine ⟨?_, htokens value hvalue⟩
    by_contra hother
    exact hcontext ⟨by rw [hvalue]; rfl, fun h => hother (methodOf_eq_connect.mp h)⟩
  · rintro ⟨method, target, hmethod, htoken, hprotocol, htarget, rfl⟩
    refine ⟨method, Fallible.okOr_eq_ok.mpr hmethod, ?_⟩
    have hparse := Method.parse_eq_some.mpr ⟨htoken, rfl⟩
    refine Fallible.bind_eq_ok.mpr ⟨methodOf method, Fallible.okOr_eq_ok.mpr hparse, ?_⟩
    have hcontext : ¬((b.slots .protocol).isSome = true ∧ methodOf method ≠ .connect) := by
      rintro ⟨hsome, hother⟩
      obtain ⟨value, hvalue⟩ := Option.isSome_iff_exists.mp hsome
      exact hother (methodOf_eq_connect.mpr (hprotocol value hvalue).1)
    have hchecked : b.protocol = .ok (b.slots .protocol) :=
      protocol_eq_ok.mpr ⟨fun value hvalue => (hprotocol value hvalue).2, rfl⟩
    rw [if_neg hcontext, htarget, Fallible.ok_bind, hchecked, Fallible.ok_bind]

/-- There is a target for an asterisk without a protocol, or for an absolute path. -/
theorem exists_splitTarget {value : List UInt8} {protocol : Option (List UInt8)} :
    (∃ path query, splitTarget value protocol.isSome = .ok (path, query)) ↔
      IsAbsolutePath value ∨ (value = ascii "*" ∧ protocol = none) := by
  constructor
  · rintro ⟨path, query, h⟩
    rcases splitTarget_eq_ok.mp h with ⟨hvalue, hprotocol, -⟩ | hsplits
    · rw [Option.isSome_eq_false_iff, Option.isNone_iff_eq_none] at hprotocol
      exact .inr ⟨hvalue, hprotocol⟩
    · exact .inl ⟨path, query, hsplits⟩
  · rintro (⟨path, query, hsplits⟩ | ⟨rfl, rfl⟩)
    · exact ⟨path, query, splitTarget_eq_ok.mpr (.inr hsplits)⟩
    · exact ⟨_, _, splitTarget_eq_ok.mpr (.inl ⟨rfl, rfl, rfl, rfl⟩)⟩

/-- A classic CONNECT has a target exactly when it is an authority and nothing else. -/
theorem exists_connectTarget {b : Builder} :
    (∃ target, b.connectTarget = .ok target) ↔
      b.slots .scheme = none ∧ b.slots .path = none ∧
        ∃ authority, b.slots .authority = some authority ∧ IsAuthority authority := by
  constructor
  · rintro ⟨target, h⟩
    obtain ⟨hscheme, hpath, authority, hslot, hauthority, -⟩ := connectTarget_eq_ok.mp h
    exact ⟨hscheme, hpath, authority, hslot, hauthority⟩
  · rintro ⟨hscheme, hpath, authority, hslot, hauthority⟩
    exact ⟨_, connectTarget_eq_ok.mpr ⟨hscheme, hpath, authority, hslot, hauthority, rfl⟩⟩

/-- Every other request has a target exactly when it has a scheme, a path and an authority. -/
theorem exists_uriTarget {b : Builder} {host : Option (List UInt8)}
    (hhost : (b.fields.get (ascii "host")).map FieldValue.bytes = host) :
    (∃ target, b.uriTarget = .ok target) ↔
      (∃ scheme, b.slots .scheme = some scheme ∧ IsScheme scheme) ∧
      (∃ target, b.slots .path = some target ∧
        (IsAbsolutePath target ∨ (target = ascii "*" ∧ b.slots .protocol = none))) ∧
      ∃ authority, NamesAuthority b.slots host authority ∧ IsAuthority authority := by
  constructor
  · rintro ⟨target, h⟩
    obtain ⟨scheme, value, authority, path, query, hslot, hscheme, hvalue, hsplit, hnamed,
      hauthority, -⟩ := uriTarget_eq_ok.mp h
    exact ⟨⟨scheme, hslot, hscheme⟩,
      ⟨value, hvalue, exists_splitTarget.mp ⟨path, query, hsplit⟩⟩,
      authority, hhost ▸ named_eq_ok.mp hnamed, hauthority⟩
  · rintro ⟨⟨scheme, hslot, hscheme⟩, ⟨value, hvalue, htarget⟩, authority, hnames, hauthority⟩
    obtain ⟨path, query, hsplit⟩ := exists_splitTarget.mpr htarget
    have hnamed := named_eq_ok.mpr (hhost.symm ▸ hnames)
    exact ⟨_, uriTarget_eq_ok.mpr ⟨scheme, value, authority, path, query, hslot, hscheme, hvalue,
      hsplit, hnamed, hauthority, rfl⟩⟩

/-- **The final checks accept exactly the well-shaped requests.** -/
theorem exists_finish {b : Builder} {host : Option (List UInt8)}
    (hhost : (b.fields.get (ascii "host")).map FieldValue.bytes = host) :
    (∃ r, b.finish = .ok r) ↔ WellShaped b.slots host := by
  have hkind : ∀ method, b.slots .method = some method →
      ((methodOf method = .connect ∧ (b.slots .protocol).isNone = true) ↔
        (b.slots .method = some (ascii "CONNECT") ∧ b.slots .protocol = none)) := by
    intro method hmethod
    rw [methodOf_eq_connect, Option.isNone_iff_eq_none, hmethod, Option.some.injEq]
  constructor
  · rintro ⟨r, h⟩
    obtain ⟨method, target, hmethod, htoken, hprotocol, htarget, -⟩ := finish_eq_ok.mp h
    rw [Builder.target] at htarget
    refine ⟨⟨method, hmethod, htoken⟩, fun protocol hslot => ?_, fun hconnect hnone => ?_,
      fun hother => ?_⟩
    · obtain ⟨rfl, hvalue⟩ := hprotocol protocol hslot
      exact ⟨hmethod, hvalue⟩
    · rw [if_pos ((hkind method hmethod).mpr ⟨hconnect, hnone⟩)] at htarget
      exact exists_connectTarget.mp ⟨target, htarget⟩
    · rw [if_neg fun h => hother ((hkind method hmethod).mp h)] at htarget
      exact (exists_uriTarget hhost).mp ⟨target, htarget⟩
  · intro h
    obtain ⟨method, hmethod, htoken⟩ := h.method
    have htarget : ∃ target, b.target (methodOf method) = .ok target := by
      rw [Builder.target]
      split_ifs with hconnect
      · obtain ⟨hmethod, hnone⟩ := (hkind method hmethod).mp hconnect
        exact exists_connectTarget.mpr (h.connect hmethod hnone)
      · exact (exists_uriTarget hhost).mpr
          (h.target fun hother => hconnect ((hkind method hmethod).mpr hother))
    obtain ⟨target, htarget⟩ := htarget
    refine ⟨_, finish_eq_ok.mpr ⟨method, target, hmethod, htoken, fun protocol hslot => ?_,
      htarget, rfl⟩⟩
    obtain ⟨hconnect, hprotocol⟩ := h.protocol protocol hslot
    rw [hmethod, Option.some.injEq] at hconnect
    exact ⟨hconnect, hprotocol⟩

end Builder

/-! ### What is accepted -/

/-- The parts of a request that are text: its pseudo-headers and its field names. -/
def Request.texts (r : Request) : List (List UInt8) :=
  [r.method.asStr] ++ r.scheme.toList ++ r.authority.toList ++ r.path.toList ++
    r.query.toList ++ r.protocol.toList ++ r.fields.map Prod.fst

/-- The field values of a request. -/
def Request.values (r : Request) : List (List UInt8) :=
  r.fields.map fun field => field.2.bytes

/-- A control byte of ASCII. -/
def isAsciiControl (byte : UInt8) : Bool :=
  byte < 0x20 || byte == 0x7f

/-- A field value has no control character but HTAB. -/
theorem FieldValue.control_eq_tab (value : FieldValue) {byte : UInt8} (hmem : byte ∈ value.bytes)
    (h : isAsciiControl byte = true) : byte = 0x09 := by
  have hall : ∀ byte : UInt8, isFieldValue [byte] = true → isAsciiControl byte = true →
      byte = 0x09 :=
    forall_byte (by decide +kernel)
  refine hall byte ?_ h
  have hvalid := List.all_eq_true.mp value.valid byte hmem
  rw [isFieldValue, List.all_cons, List.all_nil, Bool.and_true]
  exact hvalid

/-- Text made of visible characters. -/
def IsVisible (text : List UInt8) : Prop :=
  ∀ byte ∈ text, isVchar byte = true

/-- A token is visible. -/
theorem IsToken.isVisible {text : List UInt8} (h : IsToken text) : IsVisible text :=
  fun byte hmem => isVchar_of_isTchar (h.2 byte hmem)

/-- A scheme is visible. -/
theorem IsScheme.isVisible {text : List UInt8} (h : IsScheme text) : IsVisible text :=
  fun byte hmem => isVchar_of_isSchemeByte (h.2 byte hmem)

/-- An authority is visible. -/
theorem IsAuthority.isVisible {text : List UInt8} (h : IsAuthority text) : IsVisible text :=
  fun byte hmem => isVchar_of_isAuthorityByte (h.2 byte hmem)

/-- The two parts of an accepted target are visible. -/
theorem splitTarget_isVisible {target path : List UInt8} {query : Option (List UInt8)}
    {extended : Bool} (h : splitTarget target extended = .ok (path, query)) :
    IsVisible path ∧ ∀ text ∈ query, IsVisible text := by
  rcases splitTarget_eq_ok.mp h with ⟨-, -, rfl, rfl⟩ | hsplits
  · refine ⟨?_, by rintro _ ⟨⟩⟩
    exact List.all_eq_true.mp (by decide)
  · exact hsplits.isVchar

/-- Every part of an accepted target is visible. -/
theorem target_isVisible {b : Builder} {method : Method} {target : Builder.Target}
    (h : b.target method = .ok target) :
    ∀ text ∈ target.scheme.toList ++ target.authority.toList ++ target.path.toList ++
      target.query.toList, IsVisible text := by
  rw [Builder.target] at h
  split_ifs at h
  · obtain ⟨-, -, authority, -, hauthority, rfl⟩ := Builder.connectTarget_eq_ok.mp h
    intro text hmem
    simp only [Option.toList_none, Option.toList_some, List.nil_append, List.append_nil,
      List.mem_singleton] at hmem
    subst hmem
    exact hauthority.isVisible
  · obtain ⟨scheme, value, authority, path, query, -, hscheme, -, hsplit, -, hauthority, rfl⟩ :=
      Builder.uriTarget_eq_ok.mp h
    obtain ⟨hpath, hquery⟩ := splitTarget_isVisible hsplit
    intro text hmem
    simp only [Option.toList_some, List.mem_append, List.mem_singleton,
      Option.mem_toList] at hmem
    rcases hmem with ((rfl | rfl) | rfl) | hmem
    · exact hscheme.isVisible
    · exact hauthority.isVisible
    · exact hpath
    · exact hquery text hmem

/-- The collected names are visible. -/
theorem Collected.names_isVisible {lines : List Field} {b : Builder} (h : Collected lines b)
    (hrules : ∀ line ∈ lines, LineRule line) : ∀ name ∈ b.fields.map Prod.fst, IsVisible name := by
  have hnames : b.fields.map Prod.fst =
      (lines.filter fun line => ¬IsPseudo line).map Field.name := by
    have := congrArg (List.map Prod.fst) h.fields
    rw [List.map_map, List.map_map] at this
    exact this
  intro name hmem
  rw [hnames] at hmem
  obtain ⟨line, hline, rfl⟩ := List.mem_map.mp hmem
  obtain ⟨hline, hregular⟩ := List.mem_filter.mp hline
  exact ((hrules line hline).regular (of_decide_eq_true hregular)).name.1.isVisible

/-- **The texts of an accepted request are visible characters.** -/
theorem texts_isVisible {lines : List Field} {r : Request} (h : buildRequest lines = .ok r) :
    ∀ text ∈ r.texts, IsVisible text := by
  obtain ⟨b, hpass, hfinish⟩ := Fallible.bind_eq_ok.mp h
  obtain ⟨hrules, hb⟩ := readLines_ok hpass
  obtain ⟨method, target, hmethod, htoken, hprotocol, htarget, rfl⟩ :=
    Builder.finish_eq_ok.mp hfinish
  have hasStr : (Builder.methodOf method).asStr = method :=
    Method.asStr_of_parse (Method.parse_eq_some.mpr ⟨htoken, rfl⟩)
  intro text hmem
  simp only [Request.texts, hasStr, List.mem_append, List.mem_singleton] at hmem
  rcases hmem with (((((rfl | hmem) | hmem) | hmem) | hmem) | hmem) | hmem
  · exact htoken.isVisible
  · exact target_isVisible htarget text (by simp only [List.mem_append, hmem, true_or])
  · exact target_isVisible htarget text (by simp only [List.mem_append, hmem, true_or, or_true])
  · exact target_isVisible htarget text (by simp only [List.mem_append, hmem, true_or, or_true])
  · exact target_isVisible htarget text (by simp only [List.mem_append, hmem, or_true])
  · exact (hprotocol text (Option.mem_toList.mp hmem)).2.isVisible
  · exact hb.names_isVisible hrules.line text hmem

/-- **Accepted exactly when well formed.** -/
theorem exists_buildRequest (lines : List Field) :
    (∃ r, buildRequest lines = .ok r) ↔ WellFormed lines := by
  constructor
  · rintro ⟨r, h⟩
    obtain ⟨b, hpass, hfinish⟩ := Fallible.bind_eq_ok.mp h
    obtain ⟨hrules, hb⟩ := readLines_ok hpass
    have hshape := (Builder.exists_finish (hb.host hrules.line)).mp ⟨r, hfinish⟩
    rw [funext hb.slots] at hshape
    exact ⟨hrules.line, hrules.order, hshape⟩
  · intro h
    obtain ⟨b, hpass⟩ := exists_readLines ⟨h.line, h.order⟩
    have hb := (readLines_ok hpass).2
    have hshape := h.shape
    rw [← funext hb.slots] at hshape
    obtain ⟨r, hfinish⟩ := (Builder.exists_finish (hb.host h.line)).mpr hshape
    exact ⟨r, Fallible.bind_eq_ok.mpr ⟨b, hpass, hfinish⟩⟩

/-- **A request that is accepted is exactly a well-formed one.** Every failure is a stream
error with `H3_MESSAGE_ERROR`; the texts of an accepted request are visible characters, its
values have no control character but HTAB, and so nothing in it is CR, LF or NUL. -/
theorem buildRequest_well_formed (lines : List Field) :
    ((∃ r, buildRequest lines = .ok r) ↔ WellFormed lines) ∧
    (∀ v, buildRequest lines = .error v →
      v.code = Code.h3MessageError ∧ v.isConnectionError = false) ∧
    ∀ r, buildRequest lines = .ok r →
      (∀ text ∈ r.texts, ∀ byte ∈ text, isVchar byte = true) ∧
      (∀ value ∈ r.values, ∀ byte ∈ value, isAsciiControl byte = true → byte = 0x09) ∧
      ∀ part ∈ r.texts ++ r.values, 0x0d ∉ part ∧ 0x0a ∉ part ∧ 0x00 ∉ part := by
  refine ⟨exists_buildRequest lines, fun v h => ?_, fun r h => ?_⟩
  · obtain ⟨detail, rfl⟩ := buildRequest_failsIn lines v h
    exact ⟨rfl, rfl⟩
  · have htexts := texts_isVisible h
    have hvalues : ∀ value ∈ r.values, ∀ byte ∈ value,
        isAsciiControl byte = true → byte = 0x09 := by
      intro value hmem byte hbyte hcontrol
      obtain ⟨field, -, rfl⟩ := List.mem_map.mp hmem
      exact field.2.control_eq_tab hbyte hcontrol
    refine ⟨htexts, hvalues, fun part hmem => ?_⟩
    rcases List.mem_append.mp hmem with hmem | hmem
    · exact ⟨fun h => absurd (htexts part hmem _ h) (by decide),
        fun h => absurd (htexts part hmem _ h) (by decide),
        fun h => absurd (htexts part hmem _ h) (by decide)⟩
    · exact ⟨fun h => absurd (hvalues part hmem _ h (by decide)) (by decide),
        fun h => absurd (hvalues part hmem _ h (by decide)) (by decide),
        fun h => absurd (hvalues part hmem _ h (by decide)) (by decide)⟩

end Volto
