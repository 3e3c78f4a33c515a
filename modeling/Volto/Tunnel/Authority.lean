import Mathlib.Data.List.Infix
import Volto.Bytes
import Volto.Lib.Fallible
import Volto.Lib.Splitting
import Volto.Net.Literals

/-!
# The Two Target Parsers

`tcp::split_authority` reads the authority of a classic CONNECT, `udp::parse_target` the path of a
CONNECT-UDP. What either returns is what gets dialled. The grammars they accept are stated apart
from them, and the two agree on every host that both can spell.

Percent decoding is another crate's and a parameter, of which only its documented behaviour is
known. A `str` is its bytes: all that is split at or looked for is ASCII.

## Main results

* `splitAuthority_eq_ok`, `parseTarget_eq_ok`: what the two accept.
* `target_parsers_agree`: that, and that they agree.
-/

namespace Volto

namespace Tunnel

/-! ### The rules they share -/

/-- One or more digits. -/
def isPort (text : List UInt8) : Bool :=
  !text.isEmpty && text.all isAsciiDigit

/-- Whether a host holds a bracket. -/
def strayBracket (host : List UInt8) : Bool :=
  host.contains 0x5b || host.contains 0x5d

/-- The largest `u16`. -/
def portMax : ℕ := 65535

/-- `u16::from_str` after the sign: every digit is checked, and so is every step for overflow. -/
def u16Digits (text : List UInt8) : Option ℕ :=
  text.foldlM (fun value byte =>
    if isAsciiDigit byte ∧ 10 * value + digit byte ≤ portMax then some (10 * value + digit byte)
    else none) 0

/-- `u16::from_str`: a plus sign may precede the digits, of which there is at least one. -/
def u16FromStr (text : List UInt8) : Option ℕ :=
  match text with
  | [] => none
  | 0x2b :: digits => if digits.isEmpty then none else u16Digits digits
  | digits => u16Digits digits

/-- The end of both parsers. -/
def readPort (port : List UInt8) (invalid zero : String) : Except String ℕ :=
  if !isPort port then .error invalid
  else do
    let port ← Fallible.okOr (u16FromStr port) invalid
    if port = 0 then .error zero else .ok port

/-! ### The authority of a CONNECT -/

/-- The host and the port of an authority, the port as it is spelled. -/
def splitHost (authority : List UInt8) : Except String (List UInt8 × List UInt8) :=
  match authority.dropPrefix? [0x5b] with
  | some rest => do
      let (host, rest) ← Fallible.okOr (Splitting.splitOnce 0x5d rest) "unterminated IPv6 literal"
      if host.isEmpty then .error "empty host"
      else if strayBracket host then .error "stray bracket in host"
      else do
        let port ← Fallible.okOr (rest.dropPrefix? [0x3a]) "missing port after IPv6 literal"
        .ok (host, port)
  | none => do
      let (host, port) ← Fallible.okOr (Splitting.rsplitOnce 0x3a authority) "missing port"
      if host.isEmpty then .error "empty host"
      else if host.contains 0x3a then .error "unbracketed IPv6 literal"
      else if strayBracket host then .error "stray bracket in host"
      else .ok (host, port)

/-- Splits a CONNECT authority into host and port. -/
def splitAuthority (authority : List UInt8) : Except String (List UInt8 × ℕ) :=
  if authority.contains 0x40 then .error "userinfo is not allowed in a CONNECT authority"
  else do
    let (host, port) ← splitHost authority
    let port ← readPort port "invalid port" "port must not be zero"
    .ok (host, port)

/-! ### The template of a CONNECT-UDP -/

/-- The value of a byte that is a hexadecimal digit. -/
def hexDigit (byte : UInt8) : Option UInt8 :=
  if isHexDigit byte then some (.ofNat (hexValue byte)) else none

/-- Percent decoding: an escape is the byte it spells, and any other byte is left alone. -/
structure PercentDecoding where
  decode : List UInt8 → List UInt8
  decode_nil : decode [] = []
  decode_plain : ∀ byte rest, byte ≠ 0x25 → decode (byte :: rest) = byte :: decode rest
  decode_escape : ∀ high low h l rest, hexDigit high = some h → hexDigit low = some l →
    decode (0x25 :: high :: low :: rest) = (h * 16 + l) :: decode rest
  decode_stray : ∀ rest, (∀ high low tail, rest = high :: low :: tail →
    hexDigit high = none ∨ hexDigit low = none) → decode (0x25 :: rest) = 0x25 :: decode rest

/-- The path every UDP target begins with. -/
def wellKnownPrefix : List UInt8 :=
  ascii "/.well-known/masque/udp/"

/-- The two segments of the template. -/
def segments (rest : List UInt8) : Except String (List UInt8 × List UInt8) :=
  match rest.splitOn 0x2f with
  | [] | [_] => .error "missing target_port"
  | [host, port] => .ok (host, port)
  | _ => .error "too many path segments for the connect-udp template"

/-- A host without the brackets around it, if they leave anything. -/
def unbracket (host : List UInt8) : List UInt8 :=
  ((host.dropPrefix? [0x5b]).bind (·.dropSuffix? [0x5d])).filter (!·.isEmpty) |>.getD host

section

variable (percent : PercentDecoding)

/-- The host and the port of the two segments. -/
def readSegments (host port : List UInt8) : Except String (List UInt8 × ℕ) := do
  let host ← Fallible.okOr (fromUtf8 (percent.decode host)) "target_host is not valid UTF-8"
  if host.isEmpty then .error "empty target_host"
  else
    let host := unbracket host
    if strayBracket host then .error "stray bracket in host"
    else do
      let port ← Fallible.okOr (fromUtf8 (percent.decode port)) "target_port is not valid UTF-8"
      let port ← readPort port "invalid target_port" "target_port must not be zero"
      .ok (host, port)

/-- Parses the default URI template of RFC 9298. -/
def parseTarget (path : List UInt8) (query : Option (List UInt8)) :
    Except String (List UInt8 × ℕ) :=
  if query.any (!·.isEmpty) then .error "the connect-udp template accepts no query"
  else do
    let rest ← Fallible.okOr (path.dropPrefix? wellKnownPrefix)
      "path is not the connect-udp template"
    let rest := (rest.dropSuffix? [0x2f]).getD rest
    let (host, port) ← segments rest
    readSegments percent host port

end

/-! ### The grammars -/

/-- One or more digits that denote a port. -/
structure DenotesPort (text : List UInt8) (port : ℕ) : Prop where
  nonempty : text ≠ []
  digits : ∀ byte ∈ text, isAsciiDigit byte = true
  value : decimal text = port
  pos : 1 ≤ port
  le : port ≤ portMax

/-- A host that is not empty and free of brackets. -/
structure IsHost (host : List UInt8) : Prop where
  nonempty : host ≠ []
  opening : 0x5b ∉ host
  closing : 0x5d ∉ host

/-- `[host]:port`, or `host:port` when the host is free of colons. -/
inductive SpellsAuthority : List UInt8 → List UInt8 → ℕ → Prop
  | literal {host digits : List UInt8} {port : ℕ} (hhost : IsHost host)
      (hport : DenotesPort digits port) :
      SpellsAuthority (0x5b :: host ++ 0x5d :: 0x3a :: digits) host port
  | name {host digits : List UInt8} {port : ℕ} (hhost : IsHost host) (hcolon : 0x3a ∉ host)
      (hport : DenotesPort digits port) :
      SpellsAuthority (host ++ 0x3a :: digits) host port

/-- A segment that decodes to a text. -/
def DecodesTo (percent : PercentDecoding) (segment text : List UInt8) : Prop :=
  0x2f ∉ segment ∧ fromUtf8 (percent.decode segment) = some text

/-- The prefix, a host segment, a port segment and at most one slash after it. -/
inductive SpellsTemplate (percent : PercentDecoding) : List UInt8 → List UInt8 → ℕ → Prop
  | template {first second host digits slash : List UInt8} {port : ℕ} (hhost : IsHost host)
      (hfirst : DecodesTo percent first host ∨ DecodesTo percent first (0x5b :: host ++ [0x5d]))
      (hsecond : DecodesTo percent second digits) (hport : DenotesPort digits port)
      (hslash : slash = [] ∨ slash = [0x2f]) :
      SpellsTemplate percent (wellKnownPrefix ++ first ++ 0x2f :: second ++ slash) host port

/-! ### Ports -/

/-- A port is written in digits, at least one. -/
theorem isPort_eq_true {text : List UInt8} :
    isPort text = true ↔ text ≠ [] ∧ ∀ byte ∈ text, isAsciiDigit byte = true := by
  rw [isPort, Bool.and_eq_true, Bool.not_eq_true', List.isEmpty_eq_false_iff, List.all_eq_true]

/-- The digits read so far never denote more than all of them. -/
theorem le_foldl_decimal (digits : List UInt8) (value : ℕ) :
    value ≤ digits.foldl (fun value byte => 10 * value + digit byte) value := by
  induction digits generalizing value with
  | nil => exact Nat.le_refl value
  | cons byte digits ih =>
      rw [List.foldl_cons]
      exact Nat.le_trans (by omega) (ih _)

/-- Checked steps reach the number that the digits denote, if it fits. -/
theorem u16Digits_eq_some {text : List UInt8} {port : ℕ}
    (h : ∀ byte ∈ text, isAsciiDigit byte = true) :
    u16Digits text = some port ↔ decimal text = port ∧ port ≤ portMax := by
  suffices hfold : ∀ value ≤ portMax, text.foldlM (fun value byte =>
      if isAsciiDigit byte ∧ 10 * value + digit byte ≤ portMax then some (10 * value + digit byte)
      else none) value = some port ↔
      text.foldl (fun value byte => 10 * value + digit byte) value = port ∧ port ≤ portMax from
    hfold 0 (Nat.zero_le _)
  induction text with
  | nil =>
      intro value hvalue
      rw [List.foldlM_nil, List.foldl_nil, Option.pure_def, Option.some.injEq]
      exact ⟨fun heq => ⟨heq, heq ▸ hvalue⟩, fun heq => heq.1⟩
  | cons byte text ih =>
      intro value hvalue
      rw [List.foldlM_cons, List.foldl_cons]
      have hbyte := h byte List.mem_cons_self
      have hrest := fun b hb => h b (List.mem_cons_of_mem _ hb)
      by_cases hle : 10 * value + digit byte ≤ portMax
      · rw [if_pos ⟨hbyte, hle⟩]
        exact ih hrest _ hle
      · rw [if_neg fun hand => hle hand.2]
        refine iff_of_false (by simp) ?_
        rintro ⟨rfl, hport⟩
        exact hle (Nat.le_trans (le_foldl_decimal text _) hport)

/-- **What a port may be.** -/
theorem readPort_eq_ok {text : List UInt8} {invalid zero : String} {port : ℕ} :
    readPort text invalid zero = .ok port ↔ DenotesPort text port := by
  rw [readPort]
  cases htext : isPort text with
  | false =>
      refine iff_of_false (by simp) fun h => ?_
      rw [isPort_eq_true.mpr ⟨h.nonempty, h.digits⟩] at htext
      cases htext
  | true =>
      obtain ⟨hne, hdigits⟩ := isPort_eq_true.mp htext
      have hread : u16FromStr text = u16Digits text := by
        cases text with
        | nil => exact absurd rfl hne
        | cons byte rest =>
            have hsign : byte ≠ 0x2b := by
              rintro rfl
              exact absurd (hdigits _ List.mem_cons_self) (by decide)
            rw [u16FromStr]
            · simp
            · simp [hsign]
      rw [hread, if_neg (by simp), Fallible.bind_eq_ok]
      constructor
      · rintro ⟨value, hvalue, hzero⟩
        obtain ⟨hdecimal, hle⟩ := (u16Digits_eq_some hdigits).mp (Fallible.okOr_eq_ok.mp hvalue)
        split_ifs at hzero with hpos
        cases hzero
        exact ⟨hne, hdigits, hdecimal, Nat.one_le_iff_ne_zero.mpr hpos, hle⟩
      · intro h
        refine ⟨port, Fallible.okOr_eq_ok.mpr ((u16Digits_eq_some hdigits).mpr ⟨h.value, h.le⟩), ?_⟩
        rw [if_neg (Nat.one_le_iff_ne_zero.mp h.pos)]

/-- The last step of both parsers. -/
theorem readPort_bind_eq_ok {text host host' : List UInt8} {invalid zero : String} {port : ℕ} :
    (readPort text invalid zero >>= fun port => Except.ok (host, port)) = .ok (host', port) ↔
      host = host' ∧ DenotesPort text port := by
  rw [Fallible.bind_eq_ok]
  constructor
  · rintro ⟨value, hvalue, h⟩
    cases h
    exact ⟨rfl, readPort_eq_ok.mp hvalue⟩
  · rintro ⟨rfl, h⟩
    exact ⟨port, readPort_eq_ok.mpr h, rfl⟩

/-- What digits are free of. -/
theorem not_mem_of_digits {digits : List UInt8} (h : ∀ byte ∈ digits, isAsciiDigit byte = true)
    {byte : UInt8} (hbyte : isAsciiDigit byte = false) : byte ∉ digits := by
  intro hmem
  rw [h byte hmem] at hbyte
  cases hbyte

/-! ### The authority -/

/-- A host is not empty and has no stray bracket. -/
theorem isHost_iff {host : List UInt8} :
    IsHost host ↔ host.isEmpty = false ∧ strayBracket host = false := by
  rw [List.isEmpty_eq_false_iff, strayBracket, Bool.or_eq_false_iff]
  constructor
  · rintro ⟨hne, hopening, hclosing⟩
    exact ⟨hne, by simpa using hopening, by simpa using hclosing⟩
  · rintro ⟨hne, hopening, hclosing⟩
    exact ⟨hne, by simpa using hopening, by simpa using hclosing⟩

/-- A host opens no bracket. -/
theorem IsHost.append_ne_literal {host : List UInt8} (h : IsHost host) {after : List UInt8}
    (rest : List UInt8) : host ++ after ≠ 0x5b :: rest := by
  intro heq
  obtain ⟨first, tail, rfl⟩ := List.exists_cons_of_ne_nil h.nonempty
  obtain rfl : first = 0x5b := (List.cons.inj heq).1
  exact h.opening List.mem_cons_self

/-- Dropping one byte off the front. -/
theorem dropPrefix?_singleton {byte : UInt8} {text rest : List UInt8} :
    text.dropPrefix? [byte] = some rest ↔ text = byte :: rest := by
  rw [List.dropPrefix?_eq_some_iff]
  simp

/-- `[host]:port`, before the port is read. -/
theorem splitHost_literal {rest host port : List UInt8} :
    splitHost (0x5b :: rest) = .ok (host, port) ↔
      IsHost host ∧ rest = host ++ 0x5d :: 0x3a :: port := by
  have hdrop : (0x5b :: rest).dropPrefix? [0x5b] = some rest := dropPrefix?_singleton.mpr rfl
  rw [splitHost, hdrop]
  simp only
  rw [Fallible.bind_eq_ok]
  constructor
  · rintro ⟨⟨host', after⟩, hsplit, h⟩
    obtain ⟨rfl, -⟩ := Splitting.splitOnce_eq_some.mp (Fallible.okOr_eq_ok.mp hsplit)
    simp only at h
    split_ifs at h with hempty hstray
    obtain ⟨port', hport, h⟩ := Fallible.bind_eq_ok.mp h
    cases h
    rw [dropPrefix?_singleton.mp (Fallible.okOr_eq_ok.mp hport)]
    exact ⟨isHost_iff.mpr ⟨by simpa using hempty, by simpa using hstray⟩, rfl⟩
  · rintro ⟨hhost, rfl⟩
    obtain ⟨hempty, hstray⟩ := isHost_iff.mp hhost
    refine ⟨(host, 0x3a :: port), ?_, ?_⟩
    · exact Fallible.okOr_eq_ok.mpr (Splitting.splitOnce_append hhost.closing)
    · simp only [hempty, hstray]
      rw [if_neg Bool.false_ne_true, if_neg Bool.false_ne_true,
        Fallible.okOr_eq_ok.mpr (dropPrefix?_singleton.mpr rfl)]
      rfl

/-- `host:port`, before the port is read. -/
theorem splitHost_name {authority host port : List UInt8} (h : ∀ rest, authority ≠ 0x5b :: rest) :
    splitHost authority = .ok (host, port) ↔
      IsHost host ∧ 0x3a ∉ host ∧ 0x3a ∉ port ∧ authority = host ++ 0x3a :: port := by
  have hdrop : authority.dropPrefix? [0x5b] = none := by
    rw [Option.eq_none_iff_forall_ne_some]
    exact fun rest hsome => h rest (dropPrefix?_singleton.mp hsome)
  rw [splitHost, hdrop]
  simp only
  rw [Fallible.bind_eq_ok]
  constructor
  · rintro ⟨⟨host', port'⟩, hsplit, hok⟩
    obtain ⟨heq, hport⟩ := Splitting.rsplitOnce_eq_some.mp (Fallible.okOr_eq_ok.mp hsplit)
    simp only at hok
    split_ifs at hok with hempty hcolon hstray
    cases hok
    exact ⟨isHost_iff.mpr ⟨by simpa using hempty, by simpa using hstray⟩, by simpa using hcolon,
      hport, heq⟩
  · rintro ⟨hhost, hcolon, hport, rfl⟩
    obtain ⟨hempty, hstray⟩ := isHost_iff.mp hhost
    refine ⟨(host, port), Fallible.okOr_eq_ok.mpr (Splitting.rsplitOnce_append hport), ?_⟩
    simp [hempty, hstray, hcolon]

/-- **What `split_authority` accepts.** -/
theorem splitAuthority_eq_ok {authority host : List UInt8} {port : ℕ} :
    splitAuthority authority = .ok (host, port) ↔
      0x40 ∉ authority ∧ SpellsAuthority authority host port := by
  rw [splitAuthority]
  by_cases hat : 0x40 ∈ authority
  · rw [if_pos (by simpa using hat)]
    exact iff_of_false (by simp) fun h => h.1 hat
  rw [if_neg (by simpa using hat), Fallible.bind_eq_ok]
  constructor
  · rintro ⟨⟨host', text⟩, hsplit, h⟩
    refine ⟨hat, ?_⟩
    obtain ⟨rfl, hport⟩ := readPort_bind_eq_ok.mp h
    by_cases hliteral : ∃ rest, authority = 0x5b :: rest
    · obtain ⟨rest, rfl⟩ := hliteral
      obtain ⟨hhost, rfl⟩ := splitHost_literal.mp hsplit
      exact .literal hhost hport
    · obtain ⟨hhost, hcolon, -, rfl⟩ := (splitHost_name (not_exists.mp hliteral)).mp hsplit
      exact .name hhost hcolon hport
  · rintro ⟨-, h⟩
    cases h with
    | @literal _ digits _ hhost hport =>
        exact ⟨(host, digits), splitHost_literal.mpr ⟨hhost, rfl⟩,
          readPort_bind_eq_ok.mpr ⟨rfl, hport⟩⟩
    | @name _ digits _ hhost hcolon hport =>
        refine ⟨(host, digits), (splitHost_name hhost.append_ne_literal).mpr ?_,
          readPort_bind_eq_ok.mpr ⟨rfl, hport⟩⟩
        exact ⟨hhost, hcolon, not_mem_of_digits hport.digits (by decide), rfl⟩

/-! ### The template -/

/-- Dropping one byte off the end. -/
theorem dropSuffix?_singleton {byte : UInt8} {text rest : List UInt8} :
    text.dropSuffix? [byte] = some rest ↔ text = rest ++ [byte] := by
  rw [List.dropSuffix?_eq_some_iff]
  simp

/-- Two segments are what stands on the sides of the one slash. -/
theorem segments_eq_ok {rest host port : List UInt8} :
    segments rest = .ok (host, port) ↔
      rest = host ++ 0x2f :: port ∧ 0x2f ∉ host ∧ 0x2f ∉ port := by
  rw [segments, ← Splitting.splitOn_eq_pair]
  split <;> simp_all

/-- Brackets come off in a pair around a host. -/
theorem unbracket_literal {host : List UInt8} (h : host ≠ []) :
    unbracket (0x5b :: host ++ [0x5d]) = host := by
  have hprefix : (0x5b :: host ++ [0x5d]).dropPrefix? [0x5b] = some (host ++ [0x5d]) :=
    dropPrefix?_singleton.mpr rfl
  have hsuffix : (host ++ [0x5d]).dropSuffix? [0x5d] = some host :=
    dropSuffix?_singleton.mpr rfl
  rw [unbracket, hprefix, Option.bind_some, hsuffix, Option.filter_some]
  simp [h]

/-- A host without brackets has none to drop. -/
theorem unbracket_of_isHost {host : List UInt8} (h : IsHost host) : unbracket host = host := by
  have hprefix : host.dropPrefix? [0x5b] = none := by
    rw [Option.eq_none_iff_forall_ne_some]
    intro rest hsome
    rw [dropPrefix?_singleton.mp hsome] at h
    exact h.opening List.mem_cons_self
  rw [unbracket, hprefix]
  rfl

/-- **A host is what is left between the brackets, or there were none.** -/
theorem unbracket_cases (text : List UInt8) :
    unbracket text = text ∨ unbracket text ≠ [] ∧ text = 0x5b :: unbracket text ++ [0x5d] := by
  rw [unbracket]
  cases hprefix : text.dropPrefix? [0x5b] with
  | none => exact .inl rfl
  | some rest =>
      cases hsuffix : rest.dropSuffix? [0x5d] with
      | none => exact .inl (by simp [hsuffix])
      | some host =>
          by_cases hempty : host.isEmpty
          · exact .inl (by simp [hsuffix, Option.filter_some, hempty])
          · refine .inr ?_
            have hhost : (((some rest).bind (·.dropSuffix? [0x5d])).filter (!·.isEmpty)).getD text =
                host := by
              simp [hsuffix, Option.filter_some, hempty]
            rw [hhost, dropPrefix?_singleton.mp hprefix, dropSuffix?_singleton.mp hsuffix]
            exact ⟨by simpa using hempty, rfl⟩

/-- **What a text may be for its host to be accepted.** -/
theorem unbracket_eq_iff {text host : List UInt8} :
    text ≠ [] ∧ unbracket text = host ∧ strayBracket host = false ↔
      IsHost host ∧ (text = host ∨ text = 0x5b :: host ++ [0x5d]) := by
  constructor
  · rintro ⟨hne, rfl, hstray⟩
    rcases unbracket_cases text with heq | ⟨hhost, heq⟩
    · rw [heq] at hstray ⊢
      exact ⟨isHost_iff.mpr ⟨List.isEmpty_eq_false_iff.mpr hne, hstray⟩, .inl rfl⟩
    · exact ⟨isHost_iff.mpr ⟨List.isEmpty_eq_false_iff.mpr hhost, hstray⟩, .inr heq⟩
  · rintro ⟨hhost, rfl | rfl⟩
    · exact ⟨hhost.nonempty, unbracket_of_isHost hhost, (isHost_iff.mp hhost).2⟩
    · exact ⟨List.cons_ne_nil _ _, unbracket_literal hhost.nonempty, (isHost_iff.mp hhost).2⟩

variable {percent : PercentDecoding}

/-- What the two segments may decode to. -/
theorem readSegments_eq_ok {first second host : List UInt8} {port : ℕ} :
    readSegments percent first second = .ok (host, port) ↔
      ∃ text digits, fromUtf8 (percent.decode first) = some text ∧ IsHost host ∧
        (text = host ∨ text = 0x5b :: host ++ [0x5d]) ∧
        fromUtf8 (percent.decode second) = some digits ∧ DenotesPort digits port := by
  rw [readSegments, Fallible.bind_eq_ok]
  constructor
  · rintro ⟨text, htext, h⟩
    simp only at h
    split_ifs at h with hempty hstray
    obtain ⟨digits, hdigits, h⟩ := Fallible.bind_eq_ok.mp h
    obtain ⟨rfl, hport⟩ := readPort_bind_eq_ok.mp h
    obtain ⟨hhost, hspelled⟩ :=
      unbracket_eq_iff.mp ⟨by simpa using hempty, rfl, by simpa using hstray⟩
    exact ⟨text, digits, Fallible.okOr_eq_ok.mp htext, hhost, hspelled,
      Fallible.okOr_eq_ok.mp hdigits, hport⟩
  · rintro ⟨text, digits, htext, hhost, hspelled, hdigits, hport⟩
    obtain ⟨hne, hunbracket, hstray⟩ := unbracket_eq_iff.mpr ⟨hhost, hspelled⟩
    refine ⟨text, Fallible.okOr_eq_ok.mpr htext, ?_⟩
    simp only [hunbracket, hstray]
    rw [if_neg (by simpa using hne), if_neg Bool.false_ne_true,
      Fallible.okOr_eq_ok.mpr hdigits, Fallible.ok_bind]
    exact readPort_bind_eq_ok.mpr ⟨rfl, hport⟩

/-- The slash after the port segment comes off. -/
theorem dropSlash_append {first second slash : List UInt8} (hne : second ≠ [])
    (hsecond : 0x2f ∉ second) (hslash : slash = [] ∨ slash = [0x2f]) :
    ((first ++ 0x2f :: second ++ slash).dropSuffix? [0x2f]).getD
      (first ++ 0x2f :: second ++ slash) = first ++ 0x2f :: second := by
  rcases hslash with rfl | rfl
  · have hnone : (first ++ 0x2f :: second).dropSuffix? [0x2f] = none := by
      rw [Option.eq_none_iff_forall_ne_some]
      intro rest hsome
      obtain ⟨init, last, rfl⟩ := (List.eq_nil_or_concat second).resolve_left hne
      have heq : (first ++ 0x2f :: init) ++ [last] = rest ++ [0x2f] := by
        simpa using dropSuffix?_singleton.mp hsome
      obtain rfl : last = 0x2f := List.singleton_inj.mp (List.append_inj' heq rfl).2
      exact hsecond (by simp)
    rw [List.append_nil, hnone]
    rfl
  · rw [dropSuffix?_singleton.mpr rfl]
    rfl

/-- What is left of a path before its segments are cut. -/
theorem exists_slash {rest cut : List UInt8} (h : (rest.dropSuffix? [0x2f]).getD rest = cut) :
    ∃ slash, (slash = [] ∨ slash = [0x2f]) ∧ rest = cut ++ slash := by
  cases hsuffix : rest.dropSuffix? [0x2f] with
  | none =>
      rw [hsuffix, Option.getD_none] at h
      exact ⟨[], .inl rfl, by rw [h, List.append_nil]⟩
  | some before =>
      rw [hsuffix, Option.getD_some] at h
      exact ⟨[0x2f], .inr rfl, by rw [← h, dropSuffix?_singleton.mp hsuffix]⟩

/-- Dropping the well-known prefix off a path. -/
theorem dropPrefix?_wellKnownPrefix {path rest : List UInt8} :
    path.dropPrefix? wellKnownPrefix = some rest ↔ path = wellKnownPrefix ++ rest := by
  rw [List.dropPrefix?_eq_some_iff]
  simp

/-- A query that is there is empty. -/
theorem query_any_eq_false {query : Option (List UInt8)} :
    query.any (!·.isEmpty) = false ↔ ∀ text ∈ query, text = [] := by
  cases query <;> simp

/-- **What `parse_target` accepts.** -/
theorem parseTarget_eq_ok {path host : List UInt8} {query : Option (List UInt8)} {port : ℕ} :
    parseTarget percent path query = .ok (host, port) ↔
      (∀ text ∈ query, text = []) ∧ SpellsTemplate percent path host port := by
  rw [parseTarget, ← query_any_eq_false]
  cases hquery : query.any (!·.isEmpty) with
  | true => exact iff_of_false (by simp) fun h => Bool.noConfusion h.1
  | false =>
      rw [if_neg Bool.false_ne_true, Fallible.bind_eq_ok]
      constructor
      · rintro ⟨rest, hrest, h⟩
        obtain ⟨⟨first, second⟩, hsegments, h⟩ := Fallible.bind_eq_ok.mp h
        obtain ⟨text, digits, htext, hhost, hspelled, hdigits, hport⟩ := readSegments_eq_ok.mp h
        obtain ⟨hcut, hfirst, hsecond⟩ := segments_eq_ok.mp hsegments
        obtain ⟨slash, hslash, rfl⟩ := exists_slash hcut
        have hpath := dropPrefix?_wellKnownPrefix.mp (Fallible.okOr_eq_ok.mp hrest)
        rw [← List.append_assoc, ← List.append_assoc] at hpath
        refine ⟨rfl, hpath ▸ .template hhost ?_ ⟨hsecond, hdigits⟩ hport hslash⟩
        rcases hspelled with rfl | rfl
        · exact .inl ⟨hfirst, htext⟩
        · exact .inr ⟨hfirst, htext⟩
      · rintro ⟨-, h⟩
        cases h with
        | @template first second _ digits slash _ hhost hfirst hsecond hport hslash =>
            have hne : second ≠ [] := by
              rintro rfl
              have hdigits := hsecond.2
              rw [percent.decode_nil, fromUtf8_of_ascii (by simp)] at hdigits
              exact hport.nonempty (Option.some.inj hdigits).symm
            have hpath : (wellKnownPrefix ++ first ++ 0x2f :: second ++ slash).dropPrefix?
                wellKnownPrefix = some (first ++ 0x2f :: second ++ slash) :=
              dropPrefix?_wellKnownPrefix.mpr (by simp)
            refine ⟨_, Fallible.okOr_eq_ok.mpr hpath, ?_⟩
            simp only [dropSlash_append hne hsecond.1 hslash]
            obtain ⟨text, hseg, htext, hspelled⟩ : ∃ text, 0x2f ∉ first ∧
                fromUtf8 (percent.decode first) = some text ∧
                (text = host ∨ text = 0x5b :: host ++ [0x5d]) := by
              rcases hfirst with hfirst | hfirst
              · exact ⟨_, hfirst.1, hfirst.2, .inl rfl⟩
              · exact ⟨_, hfirst.1, hfirst.2, .inr rfl⟩
            rw [segments_eq_ok.mpr ⟨rfl, hseg, hsecond.1⟩, Fallible.ok_bind]
            exact readSegments_eq_ok.mpr ⟨text, digits, htext, hhost, hspelled, hsecond.2, hport⟩

/-! ### Agreement -/

/-- The template filled with a host and a port. -/
def fillTemplate (host digits : List UInt8) : List UInt8 :=
  wellKnownPrefix ++ host ++ 0x2f :: digits ++ [0x2f]

/-- The authority of a host and a port: an IPv6 literal stands in brackets. -/
def spellAuthority (host digits : List UInt8) : List UInt8 :=
  if 0x3a ∈ host then 0x5b :: host ++ 0x5d :: 0x3a :: digits else host ++ 0x3a :: digits

/-- A host that both routes can spell without an escape. -/
structure Plain (host : List UInt8) : Prop extends IsHost host where
  text : fromUtf8 host = some host
  at_ : 0x40 ∉ host
  slash : 0x2f ∉ host
  percent : 0x25 ∉ host

/-- Nothing is escaped, so nothing is decoded. -/
theorem PercentDecoding.decode_of_not_mem (percent : PercentDecoding) {text : List UInt8}
    (h : 0x25 ∉ text) : percent.decode text = text := by
  induction text with
  | nil => exact percent.decode_nil
  | cons byte text ih =>
      rw [List.mem_cons, not_or] at h
      rw [percent.decode_plain byte text (Ne.symm h.1), ih h.2]

section

variable {host host' digits : List UInt8} {port : ℕ}

/-- A digit is ASCII. -/
theorem isAscii_of_isAsciiDigit {byte : UInt8} (h : isAsciiDigit byte = true) : byte < 0x80 := by
  have hall : ∀ byte : UInt8, isAsciiDigit byte = true → byte < 0x80 :=
    forall_byte (by decide +kernel)
  exact hall byte h

/-- `split_authority` on a plain host. -/
theorem splitAuthority_spellAuthority (hplain : Plain host)
    (hdigits : ∀ byte ∈ digits, isAsciiDigit byte = true) :
    splitAuthority (spellAuthority host digits) = .ok (host', port) ↔
      host = host' ∧ DenotesPort digits port := by
  have hat : 0x40 ∉ digits := not_mem_of_digits hdigits (by decide)
  have hsplit : splitHost (spellAuthority host digits) = .ok (host, digits) ∧
      0x40 ∉ spellAuthority host digits := by
    rw [spellAuthority]
    split_ifs with hcolon
    · refine ⟨splitHost_literal.mpr ⟨hplain.toIsHost, rfl⟩, ?_⟩
      simp [hplain.at_, hat]
    · refine ⟨(splitHost_name hplain.append_ne_literal).mpr
        ⟨hplain.toIsHost, hcolon, not_mem_of_digits hdigits (by decide), rfl⟩, ?_⟩
      simp [hplain.at_, hat]
  rw [splitAuthority, if_neg (by simpa using hsplit.2), hsplit.1, Fallible.ok_bind]
  exact readPort_bind_eq_ok

/-- `parse_target` on a plain host. -/
theorem parseTarget_fillTemplate (hplain : Plain host)
    (hdigits : ∀ byte ∈ digits, isAsciiDigit byte = true) :
    parseTarget percent (fillTemplate host digits) none = .ok (host', port) ↔
      host = host' ∧ DenotesPort digits port := by
  have hprefix : (fillTemplate host digits).dropPrefix? wellKnownPrefix =
      some (host ++ 0x2f :: digits ++ [0x2f]) :=
    dropPrefix?_wellKnownPrefix.mpr (by simp [fillTemplate])
  have hsuffix : (host ++ 0x2f :: digits ++ [0x2f]).dropSuffix? [0x2f] =
      some (host ++ 0x2f :: digits) :=
    dropSuffix?_singleton.mpr rfl
  have hsegments : segments (host ++ 0x2f :: digits) = .ok (host, digits) :=
    segments_eq_ok.mpr ⟨rfl, hplain.slash, not_mem_of_digits hdigits (by decide)⟩
  have hhost : fromUtf8 (percent.decode host) = some host := by
    rw [percent.decode_of_not_mem hplain.percent, hplain.text]
  have hport : fromUtf8 (percent.decode digits) = some digits := by
    rw [percent.decode_of_not_mem (not_mem_of_digits hdigits (by decide))]
    exact fromUtf8_of_ascii fun byte hmem => isAscii_of_isAsciiDigit (hdigits byte hmem)
  obtain ⟨hempty, hstray⟩ := isHost_iff.mp hplain.toIsHost
  have hparse : parseTarget percent (fillTemplate host digits) none =
      (readPort digits "invalid target_port" "target_port must not be zero" >>=
        fun port => Except.ok (host, port)) := by
    simp only [parseTarget, readSegments, hprefix, hsuffix, hhost, hport, Fallible.okOr,
      Fallible.ok_bind, Option.getD_some, hsegments, hempty, unbracket_of_isHost hplain.toIsHost,
      hstray]
    rfl
  rw [hparse]
  exact readPort_bind_eq_ok

end

/-- **The two parsers accept exactly their grammars, and agree.** On a host that both can spell,
and any digits, they succeed together and return the same. -/
theorem target_parsers_agree (percent : PercentDecoding) :
    (∀ authority host port, splitAuthority authority = .ok (host, port) ↔
      0x40 ∉ authority ∧ SpellsAuthority authority host port) ∧
    (∀ path query host port, parseTarget percent path query = .ok (host, port) ↔
      (∀ text ∈ query, text = []) ∧ SpellsTemplate percent path host port) ∧
    ∀ host digits, Plain host → (∀ byte ∈ digits, isAsciiDigit byte = true) →
      ∀ host' port,
        (parseTarget percent (fillTemplate host digits) none = .ok (host', port) ↔
          splitAuthority (spellAuthority host digits) = .ok (host', port)) ∧
        (splitAuthority (spellAuthority host digits) = .ok (host', port) ↔
          host = host' ∧ DenotesPort digits port) := by
  refine ⟨fun _ _ _ => splitAuthority_eq_ok, fun _ _ _ _ => parseTarget_eq_ok, ?_⟩
  intro host digits hplain hdigits host' port
  have hsplit : splitAuthority (spellAuthority host digits) = .ok (host', port) ↔ _ :=
    splitAuthority_spellAuthority hplain hdigits
  exact ⟨(parseTarget_fillTemplate hplain hdigits).trans hsplit.symm, hsplit⟩

/-- Percent decoding as the crate documents it. -/
def percentDecode : List UInt8 → List UInt8
  | [] => []
  | [byte] => [byte]
  | [byte, next] => [byte, next]
  | byte :: high :: low :: rest =>
      match byte == 0x25, hexDigit high, hexDigit low with
      | true, some h, some l => (h * 16 + l) :: percentDecode rest
      | _, _, _ => byte :: percentDecode (high :: low :: rest)

/-- The decoding that the template is parsed with. -/
def percentDecodeStr : PercentDecoding where
  decode := percentDecode
  decode_nil := by rw [percentDecode]
  decode_plain byte rest hbyte := by
    match rest with
    | [] | [_] => rw [percentDecode, percentDecode]
    | high :: low :: tail => simp [percentDecode, hbyte]
  decode_escape high low h l rest hhigh hlow := by
    simp [percentDecode, hhigh, hlow]
  decode_stray rest hrest := by
    match rest with
    | [] | [_] => rw [percentDecode, percentDecode]
    | high :: low :: tail =>
        rcases hrest high low tail rfl with hnone | hnone
        · simp [percentDecode, hnone]
        · cases hhigh : hexDigit high <;> simp [percentDecode, hhigh, hnone]

/-- An IPv6 literal, bare in the template and in brackets in the authority. -/
theorem target_parsers_agree_on_literal :
    parseTarget percentDecodeStr (fillTemplate (ascii "::1") (ascii "443")) none =
        .ok (ascii "::1", 443) ∧
      splitAuthority (spellAuthority (ascii "::1") (ascii "443")) = .ok (ascii "::1", 443) := by
  have hascii : (ascii "::1").all (· < 0x80) = true := by decide
  have hdigits : (ascii "443").all isAsciiDigit = true := by decide
  have hplain : Plain (ascii "::1") :=
    { nonempty := by decide
      opening := by decide
      closing := by decide
      text := fromUtf8_of_ascii fun byte hmem =>
        of_decide_eq_true (List.all_eq_true.mp hascii byte hmem)
      at_ := by decide
      slash := by decide
      percent := by decide }
  have hport : DenotesPort (ascii "443") 443 :=
    ⟨by decide, List.all_eq_true.mp hdigits, by decide, by decide, by decide⟩
  obtain ⟨htogether, hsplit⟩ := (target_parsers_agree percentDecodeStr).2.2 (ascii "::1")
    (ascii "443") hplain (List.all_eq_true.mp hdigits) (ascii "::1") 443
  exact ⟨htogether.mpr (hsplit.mpr ⟨rfl, hport⟩), hsplit.mpr ⟨rfl, hport⟩⟩

end Tunnel

end Volto
