import Mathlib.Data.List.DropRight
import Mathlib.Logic.Function.Basic
import Volto.H3.Message
import Volto.H3.Qpack

/-!
# Building a Request

`build_request` of `h3/stream.rs`: a decoded field section becomes a request, or is malformed.
One pass over the lines fills the five pseudo-header slots and collects the regular fields;
what follows judges the shape of the request from the slots. Every rejection ends the stream
with `H3_MESSAGE_ERROR`.

The second half says what each of the parsers accepts, in the terms of the grammar it checks.

## Main results

* `uriScheme_eq_ok`, `uriAuthority_eq_ok`, `splitTarget_eq_ok`: what the parsers of the target
  accept, and that they return it as it is.
* `addField_eq_ok`: what makes a regular field acceptable.
* `buildRequest_failsIn`: every failure is a malformed message.
-/

namespace Volto

open Qpack (Field)

/-- A message this server will not process. -/
def malformed (detail : String) : Violation :=
  Violation.stream Code.h3MessageError detail

/-! ### Pseudo-headers and their values -/

/-- A pseudo-header begins with a colon. -/
def IsPseudo (line : Field) : Prop :=
  line.name.head? = some 0x3a

/-- Whether a field is a pseudo field is read off its first byte. -/
instance (line : Field) : Decidable (IsPseudo line) :=
  inferInstanceAs (Decidable (line.name.head? = some 0x3a))

/-- The defined pseudo-headers, one slot each. -/
inductive Pseudo
  | method
  | scheme
  | authority
  | path
  | protocol
deriving DecidableEq, Repr

namespace Pseudo

/-- The name on the wire. -/
def name : Pseudo → List UInt8
  | method => ascii ":method"
  | scheme => ascii ":scheme"
  | authority => ascii ":authority"
  | path => ascii ":path"
  | protocol => ascii ":protocol"

/-- The slot a name goes to, if it is a defined one. -/
def fromName (bytes : List UInt8) : Option Pseudo :=
  if bytes = name method then some method
  else if bytes = name scheme then some scheme
  else if bytes = name authority then some authority
  else if bytes = name path then some path
  else if bytes = name protocol then some protocol
  else none

end Pseudo

/-- Bytes an ASCII check has already accepted, as text. -/
def asciiText (bytes : List UInt8) (invalid : Violation) : Except Violation (List UInt8) :=
  Fallible.okOr (fromUtf8 bytes) invalid

/-- Checks a `:protocol` value: an upgrade token is a token. -/
def connectProtocol (protocol : List UInt8) : Except Violation (List UInt8) :=
  Fallible.okOr (token protocol) (malformed "a :protocol that is not a token")

/-- Whether `byte` may appear in a scheme. -/
def isSchemeByte (byte : UInt8) : Bool :=
  isAsciiAlphanumeric byte || (ascii "+-.").contains byte

/-- Checks a `:scheme` value. -/
def uriScheme (scheme : List UInt8) : Except Violation (List UInt8) :=
  let invalid := malformed "a :scheme that is not a URI scheme"
  if !scheme.head?.any isAsciiAlphabetic || !scheme.all isSchemeByte then
    .error invalid
  else
    asciiText scheme invalid

/-- Whether `byte` may appear in an authority. -/
def isAuthorityByte (byte : UInt8) : Bool :=
  isAsciiAlphanumeric byte || (ascii "-._~%!$&'()*+,;=:@[]").contains byte

/-- Checks an authority. -/
def uriAuthority (authority : List UInt8) : Except Violation (List UInt8) :=
  let invalid := malformed "an :authority that is not an authority"
  if authority.isEmpty then
    .error (malformed "an empty :authority")
  else if !authority.all isAuthorityByte then
    .error invalid
  else
    asciiText authority invalid

/-- Whether `byte` is a path character, or the `%` one begins with. -/
def isPchar (byte : UInt8) : Bool :=
  isAsciiAlphanumeric byte || (ascii "-._~%!$&'()*+,;=:@").contains byte

/-- The bytes of a path. -/
def isPathByte (byte : UInt8) : Bool :=
  isPchar byte || byte == 0x2f

/-- The bytes of a query. -/
def isQueryByte (byte : UInt8) : Bool :=
  isPchar byte || byte == 0x2f || byte == 0x3f

/-- A target cut at its first `?`. -/
def cutAtQuery (target : List UInt8) : List UInt8 × Option (List UInt8) :=
  match target.findIdx? (· == 0x3f) with
  | some mark => (target.take mark, some (target.drop (mark + 1)))
  | none => (target, none)

/-- Splits a `:path` into its path and its query, checking both. -/
def splitTarget (target : List UInt8) (extended : Bool) :
    Except Violation (List UInt8 × Option (List UInt8)) :=
  if target = ascii "*" ∧ extended = false then
    .ok (ascii "*", none)
  else if target.head? ≠ some 0x2f then
    .error (malformed "a :path that is not an absolute path")
  else
    let (path, query) := cutAtQuery target
    if !path.all isPathByte then
      .error (malformed "a :path with a character no path may contain")
    else if !query.all (·.all isQueryByte) then
      .error (malformed "a :path with a character no query may contain")
    else do
      let invalid := malformed "a :path that is not valid UTF-8"
      let path ← asciiText path invalid
      match query with
      | none => .ok (path, none)
      | some query =>
          let query ← asciiText query invalid
          .ok (path, some query)

/-! ### Regular fields -/

/-- A space or a tab. -/
def isOptionalWhitespace (byte : UInt8) : Bool :=
  byte == 0x20 || byte == 0x09

/-- Drops the leading and trailing SP and HTAB of a field value. -/
def trimOptionalWhitespace (value : List UInt8) : List UInt8 :=
  (value.dropWhile isOptionalWhitespace).rdropWhile isOptionalWhitespace

/-- Adds one regular field. -/
def addField (fields : Fields) (name value : List UInt8) : Except Violation Fields := do
  let name ← Fallible.okOr (fieldName name)
    (malformed "a field name that is uppercase or not a token")
  let value ← Fallible.okOr (FieldValue.parse (trimOptionalWhitespace value))
    (malformed "a field value with a forbidden character")
  if name = ascii "connection" then
    .error (malformed "the Connection field, which HTTP/3 has no use for")
  else if name = ascii "te" ∧ value.bytes ≠ ascii "trailers" then
    .error (malformed "a TE field with a value other than \"trailers\"")
  else if name = ascii "host" ∧ fields.contains (ascii "host") then
    .error (malformed "more than one Host field")
  else
    .ok (fields.append name value)

/-! ### The pass over the lines -/

/-- What the pass has collected. -/
structure Builder where
  slots : Pseudo → Option (List UInt8)
  fields : Fields
  regularFieldSeen : Bool

namespace Builder

/-- A request of which nothing has been read. -/
def new : Builder :=
  ⟨fun _ => none, [], false⟩

/-- Takes one line. -/
def takeLine (b : Builder) (line : Field) : Except Violation Builder :=
  if ¬IsPseudo line then do
    let fields ← addField b.fields line.name line.value
    .ok { b with fields := fields, regularFieldSeen := true }
  else if b.regularFieldSeen then
    .error (malformed "a pseudo-header field after a regular field")
  else
    match Pseudo.fromName line.name with
    | none => .error (malformed "an undefined pseudo-header field")
    | some slot =>
        if (b.slots slot).isSome then
          .error (malformed "a repeated pseudo-header field")
        else
          .ok { b with slots := Function.update b.slots slot (some line.value) }

/-- The authority of a request that is not a classic CONNECT: the pseudo-header, or the Host
field where one may stand in for it. -/
def named (b : Builder) : Except Violation (List UInt8) :=
  match b.slots .authority, b.fields.get (ascii "host") with
  | some authority, some host =>
      if authority ≠ host.bytes then
        .error (malformed ":authority and Host disagree")
      else
        .ok authority
  | some authority, none => .ok authority
  | none, host =>
      if (b.slots .protocol).isSome then
        .error (malformed "an extended CONNECT request without :authority")
      else
        match host with
        | some host => .ok host.bytes
        | none => .error (malformed "a request with neither :authority nor Host")

/-- What the target of a request is made of. -/
structure Target where
  scheme : Option (List UInt8)
  authority : Option (List UInt8)
  path : Option (List UInt8)
  query : Option (List UInt8)

/-- The target of a classic CONNECT, which is an authority and nothing else. -/
def connectTarget (b : Builder) : Except Violation Target :=
  if (b.slots .scheme).isSome ∨ (b.slots .path).isSome then
    .error (malformed "a CONNECT request carrying :scheme or :path")
  else do
    let authority ← Fallible.okOr (b.slots .authority)
      (malformed "a CONNECT request without :authority")
    let authority ← uriAuthority authority
    .ok ⟨none, some authority, none, none⟩

/-- The target of an extended CONNECT and of any other request. -/
def uriTarget (b : Builder) : Except Violation Target := do
  let scheme ← Fallible.okOr (b.slots .scheme) (malformed "a request without :scheme")
  let target ← Fallible.okOr (b.slots .path) (malformed "a request without :path")
  let named ← b.named
  let (path, query) ← splitTarget target (b.slots .protocol).isSome
  let scheme ← uriScheme scheme
  let authority ← uriAuthority named
  .ok ⟨some scheme, some authority, some path, query⟩

/-- The target, by the kind of the request. -/
def target (b : Builder) (method : Method) : Except Violation Target :=
  if method = .connect ∧ (b.slots .protocol).isNone then b.connectTarget else b.uriTarget

/-- The checked `:protocol`, if there is one. -/
def protocol (b : Builder) : Except Violation (Option (List UInt8)) :=
  match b.slots .protocol with
  | none => .ok none
  | some protocol => do
      let protocol ← connectProtocol protocol
      .ok (some protocol)

/-- Judges what was collected. -/
def finish (b : Builder) : Except Violation Request := do
  let method ← Fallible.okOr (b.slots .method) (malformed "a request without :method")
  let method ← Fallible.okOr (Method.parse method) (malformed "an invalid :method")
  if (b.slots .protocol).isSome ∧ method ≠ .connect then
    .error (malformed ":protocol on a request that is not CONNECT")
  else do
    let target ← b.target method
    let protocol ← b.protocol
    .ok ⟨method, target.scheme, target.authority, target.path, target.query, protocol, b.fields⟩

end Builder

/-- Turns a decoded field section into a request, or says why it cannot. -/
def buildRequest (lines : List Field) : Except Violation Request := do
  let b ← lines.foldlM Builder.takeLine Builder.new
  b.finish

/-! ### What the parsers accept -/

/-- A letter, then letters, digits and `+`, `-`, `.`. -/
def IsScheme (scheme : List UInt8) : Prop :=
  (∃ first ∈ scheme.head?, isAsciiAlphabetic first = true) ∧
    ∀ byte ∈ scheme, isSchemeByte byte = true

/-- One or more authority characters. -/
def IsAuthority (authority : List UInt8) : Prop :=
  authority ≠ [] ∧ ∀ byte ∈ authority, isAuthorityByte byte = true

/-- An absolute path, and after a `?` a query. -/
inductive Splits : List UInt8 → List UInt8 → Option (List UInt8) → Prop
  | path {path : List UInt8} (habsolute : path.head? = some 0x2f)
      (hpath : ∀ byte ∈ path, isPathByte byte = true) : Splits path path none
  | query {path query : List UInt8} (habsolute : path.head? = some 0x2f)
      (hpath : ∀ byte ∈ path, isPathByte byte = true)
      (hquery : ∀ byte ∈ query, isQueryByte byte = true) :
      Splits (path ++ 0x3f :: query) path (some query)

/-- A target that is an absolute path, with or without a query. -/
def IsAbsolutePath (target : List UInt8) : Prop :=
  ∃ path query, Splits target path query

/-- The parsers of the target accept visible characters only. -/
theorem isVchar_of_isSchemeByte {byte : UInt8} (h : isSchemeByte byte = true) :
    isVchar byte = true := by
  have hall : ∀ byte : UInt8, isSchemeByte byte = true → isVchar byte = true :=
    forall_byte (by decide +kernel)
  exact hall byte h

/-- The bytes of an authority are visible. -/
theorem isVchar_of_isAuthorityByte {byte : UInt8} (h : isAuthorityByte byte = true) :
    isVchar byte = true := by
  have hall : ∀ byte : UInt8, isAuthorityByte byte = true → isVchar byte = true :=
    forall_byte (by decide +kernel)
  exact hall byte h

/-- The bytes of a query are visible. -/
theorem isVchar_of_isQueryByte {byte : UInt8} (h : isQueryByte byte = true) :
    isVchar byte = true := by
  have hall : ∀ byte : UInt8, isQueryByte byte = true → isVchar byte = true :=
    forall_byte (by decide +kernel)
  exact hall byte h

/-- A path character is a query character, and not the mark between the two. -/
theorem isQueryByte_of_isPathByte {byte : UInt8} (h : isPathByte byte = true) :
    isQueryByte byte = true ∧ byte ≠ 0x3f := by
  have hall : ∀ byte : UInt8, isPathByte byte = true → isQueryByte byte = true ∧ byte ≠ 0x3f :=
    forall_byte (by decide +kernel)
  exact hall byte h

/-- The bytes of a path are visible. -/
theorem isVchar_of_isPathByte {byte : UInt8} (h : isPathByte byte = true) :
    isVchar byte = true :=
  isVchar_of_isQueryByte (isQueryByte_of_isPathByte h).1

/-- Text made of visible characters is returned as it is. -/
theorem asciiText_of_isVchar {bytes : List UInt8} (invalid : Violation)
    (h : ∀ byte ∈ bytes, isVchar byte = true) : asciiText bytes invalid = .ok bytes := by
  rw [asciiText, fromUtf8_of_isVchar h]
  rfl

/-- What `connectProtocol` accepts. -/
theorem connectProtocol_eq_ok {protocol text : List UInt8} :
    connectProtocol protocol = .ok text ↔ IsToken protocol ∧ text = protocol := by
  rw [connectProtocol, Fallible.okOr_eq_ok, token_eq_some]

/-- **What `uriScheme` accepts.** -/
theorem uriScheme_eq_ok {scheme text : List UInt8} :
    uriScheme scheme = .ok text ↔ IsScheme scheme ∧ text = scheme := by
  have hcheck : (!scheme.head?.any isAsciiAlphabetic || !scheme.all isSchemeByte) = false ↔
      IsScheme scheme := by
    rw [Bool.or_eq_false_iff, Bool.not_eq_false', Bool.not_eq_false', Option.any_eq_true,
      List.all_eq_true, IsScheme]
    rfl
  unfold uriScheme
  simp only
  split_ifs with h
  · constructor
    · intro h'
      cases h'
    · rintro ⟨hscheme, -⟩
      rw [hcheck.mpr hscheme] at h
      cases h
  · have hscheme := hcheck.mp (Bool.eq_false_of_not_eq_true h)
    rw [asciiText_of_isVchar _ fun byte hmem => isVchar_of_isSchemeByte (hscheme.2 byte hmem)]
    constructor
    · rintro ⟨⟩
      exact ⟨hscheme, rfl⟩
    · rintro ⟨-, rfl⟩
      rfl

/-- **What `uriAuthority` accepts.** -/
theorem uriAuthority_eq_ok {authority text : List UInt8} :
    uriAuthority authority = .ok text ↔ IsAuthority authority ∧ text = authority := by
  unfold uriAuthority IsAuthority
  simp only
  split_ifs with hempty hbytes
  · rw [List.isEmpty_iff] at hempty
    constructor
    · intro h
      cases h
    · rintro ⟨⟨hne, -⟩, -⟩
      exact (hne hempty).elim
  · rw [Bool.not_eq_true', ← Bool.not_eq_true, List.all_eq_true] at hbytes
    constructor
    · intro h
      cases h
    · rintro ⟨⟨-, hall⟩, -⟩
      exact (hbytes hall).elim
  · rw [List.isEmpty_iff] at hempty
    rw [Bool.not_eq_true', ← Bool.not_eq_true, List.all_eq_true, not_not] at hbytes
    rw [asciiText_of_isVchar _ fun byte hmem => isVchar_of_isAuthorityByte (hbytes byte hmem)]
    constructor
    · rintro ⟨⟩
      exact ⟨⟨hempty, hbytes⟩, rfl⟩
    · rintro ⟨-, rfl⟩
      rfl

/-- A target is its path, or its path, the mark and its query. -/
theorem eq_of_cutAtQuery {target path : List UInt8} {query : Option (List UInt8)}
    (h : cutAtQuery target = (path, query)) :
    (query = none ∧ target = path) ∨
      ∃ rest, query = some rest ∧ target = path ++ 0x3f :: rest := by
  rw [cutAtQuery] at h
  cases hmark : target.findIdx? (· == 0x3f) with
  | none =>
      rw [hmark] at h
      cases h
      exact .inl ⟨rfl, rfl⟩
  | some mark =>
      rw [hmark] at h
      cases h
      obtain ⟨hlt, hbyte, -⟩ := List.findIdx?_eq_some_iff_getElem.mp hmark
      refine .inr ⟨_, rfl, ?_⟩
      rw [← beq_iff_eq.mp hbyte, ← List.drop_eq_getElem_cons hlt, List.take_append_drop]

/-- A target without the mark is all path. -/
theorem cutAtQuery_path {path : List UInt8} (h : ∀ byte ∈ path, byte ≠ 0x3f) :
    cutAtQuery path = (path, none) := by
  have hnone : path.findIdx? (· == 0x3f) = none := by
    rw [List.findIdx?_eq_none_iff]
    intro byte hmem
    exact beq_false_of_ne (h byte hmem)
  rw [cutAtQuery, hnone]

/-- The first mark is where a target is cut. -/
theorem cutAtQuery_append {path : List UInt8} (h : ∀ byte ∈ path, byte ≠ 0x3f)
    (query : List UInt8) : cutAtQuery (path ++ 0x3f :: query) = (path, some query) := by
  have hnone : path.findIdx? (· == 0x3f) = none := by
    rw [List.findIdx?_eq_none_iff]
    intro byte hmem
    exact beq_false_of_ne (h byte hmem)
  have hmark : (path ++ 0x3f :: query).findIdx? (· == 0x3f) = some path.length := by
    rw [List.findIdx?_append, hnone, Option.none_or, List.findIdx?_cons]
    simp only [beq_self_eq_true, if_true, Option.map_some, Nat.zero_add]
  have hdrop : (path ++ 0x3f :: query).drop (path.length + 1) = query := by
    rw [List.drop_append]
    simp
  rw [cutAtQuery, hmark]
  simp only [List.take_left, hdrop]

/-- What splits into a path and a query is absolute. -/
theorem Splits.head_target {target path : List UInt8} {query : Option (List UInt8)}
    (h : Splits target path query) : target.head? = some 0x2f := by
  cases h with
  | path habsolute hpath => exact habsolute
  | query habsolute hpath hquery => rw [List.head?_append, habsolute, Option.some_or]

/-- Both parts of a target are made of visible characters. -/
theorem Splits.isVchar {target path : List UInt8} {query : Option (List UInt8)}
    (h : Splits target path query) :
    (∀ byte ∈ path, isVchar byte = true) ∧
      ∀ rest ∈ query, ∀ byte ∈ rest, isVchar byte = true := by
  cases h with
  | path habsolute hpath =>
      exact ⟨fun byte hmem => isVchar_of_isPathByte (hpath byte hmem), by rintro _ ⟨⟩⟩
  | query habsolute hpath hquery =>
      refine ⟨fun byte hmem => isVchar_of_isPathByte (hpath byte hmem), ?_⟩
      rintro _ ⟨⟩ byte hmem
      exact isVchar_of_isQueryByte (hquery byte hmem)

/-- A target that splits is cut where it splits. -/
theorem Splits.cutAtQuery_eq {target path : List UInt8} {query : Option (List UInt8)}
    (h : Splits target path query) : cutAtQuery target = (path, query) := by
  cases h with
  | path habsolute hpath =>
      exact cutAtQuery_path fun byte hmem => (isQueryByte_of_isPathByte (hpath byte hmem)).2
  | query habsolute hpath hquery =>
      exact cutAtQuery_append
        (fun byte hmem => (isQueryByte_of_isPathByte (hpath byte hmem)).2) _

/-- A cut whose two parts pass their checks is a split. -/
theorem splits_of_cutAtQuery {target path : List UInt8} {query : Option (List UInt8)}
    (habsolute : target.head? = some 0x2f) (hcut : cutAtQuery target = (path, query))
    (hpath : ∀ byte ∈ path, isPathByte byte = true)
    (hquery : ∀ rest ∈ query, ∀ byte ∈ rest, isQueryByte byte = true) :
    Splits target path query := by
  obtain ⟨rfl, rfl⟩ | ⟨rest, rfl, rfl⟩ := eq_of_cutAtQuery hcut
  · exact .path habsolute hpath
  · refine .query ?_ hpath (hquery rest rfl)
    -- the first byte of the target is the slash, so the path is not empty
    cases path with
    | nil => cases habsolute
    | cons first path => exact habsolute

/-- A target that splits passes every check and is returned in its two parts. -/
theorem splitTarget_of_splits {target path : List UInt8} {query : Option (List UInt8)}
    (h : Splits target path query) (extended : Bool) :
    splitTarget target extended = .ok (path, query) := by
  have hasterisk : ¬(target = ascii "*" ∧ extended = false) := by
    rintro ⟨rfl, -⟩
    exact absurd h.head_target (by decide)
  have hparts : path.all isPathByte = true ∧ query.all (·.all isQueryByte) = true := by
    cases h with
    | path habsolute hpath => exact ⟨List.all_eq_true.mpr hpath, rfl⟩
    | query habsolute hpath hquery =>
        exact ⟨List.all_eq_true.mpr hpath, List.all_eq_true.mpr hquery⟩
  obtain ⟨hpath, hquery⟩ := h.isVchar
  rw [splitTarget, if_neg hasterisk, if_neg (not_not.mpr h.head_target), h.cutAtQuery_eq]
  simp only [hparts.1, hparts.2, Bool.not_true, Bool.false_eq_true, if_false,
    asciiText_of_isVchar _ hpath, Fallible.ok_bind]
  cases query with
  | none => rfl
  | some rest => simp only [asciiText_of_isVchar _ (hquery rest rfl), Fallible.ok_bind]

/-- A target that is accepted is the asterisk or splits. -/
theorem splits_of_splitTarget {target : List UInt8} {extended : Bool}
    {parts : List UInt8 × Option (List UInt8)} (h : splitTarget target extended = .ok parts) :
    (target = ascii "*" ∧ extended = false) ∨ IsAbsolutePath target := by
  rw [splitTarget] at h
  split_ifs at h with hasterisk habsolute
  · exact .inl hasterisk
  · cases hcut : cutAtQuery target with
    | mk path query =>
        rw [hcut] at h
        simp only at h
        split_ifs at h with hpath hquery
        rw [Bool.not_eq_true', Bool.not_eq_false, List.all_eq_true] at hpath
        rw [Bool.not_eq_true', Bool.not_eq_false, Option.all_eq_true] at hquery
        exact .inr ⟨path, query, splits_of_cutAtQuery (not_not.mp habsolute) hcut hpath
          fun rest hmem => List.all_eq_true.mp (hquery rest hmem)⟩

/-- **What `splitTarget` accepts**: the asterisk where there is no `:protocol`, or an absolute
path with an optional query. -/
theorem splitTarget_eq_ok {target path : List UInt8} {query : Option (List UInt8)}
    {extended : Bool} :
    splitTarget target extended = .ok (path, query) ↔
      (target = ascii "*" ∧ extended = false ∧ path = ascii "*" ∧ query = none) ∨
        Splits target path query := by
  constructor
  · intro h
    obtain ⟨rfl, rfl⟩ | ⟨path', query', hsplits⟩ := splits_of_splitTarget h
    · cases h
      exact .inl ⟨rfl, rfl, rfl, rfl⟩
    · rw [splitTarget_of_splits hsplits] at h
      cases h
      exact .inr hsplits
  · rintro (⟨rfl, rfl, rfl, rfl⟩ | hsplits)
    · rfl
    · exact splitTarget_of_splits hsplits extended

/-! ### Regular fields -/

/-- What one regular field has to be. -/
structure IsRegularField (line : Field) : Prop where
  name : IsFieldName line.name
  value : isFieldValue (trimOptionalWhitespace line.value) = true
  not_connection : line.name ≠ ascii "connection"
  te : line.name = ascii "te" → trimOptionalWhitespace line.value = ascii "trailers"

/-- **What makes a regular field acceptable**: it is one, and no second Host. -/
theorem addField_eq_ok {fields fields' : Fields} {line : Field} :
    addField fields line.name line.value = .ok fields' ↔
      IsRegularField line ∧ ¬(line.name = ascii "host" ∧ fields.contains (ascii "host") = true) ∧
        ∃ value : FieldValue, value.bytes = trimOptionalWhitespace line.value ∧
          fields' = fields.append line.name value := by
  rw [addField]
  rw [Fallible.bind_eq_ok]
  constructor
  · rintro ⟨name, hparse, h⟩
    obtain ⟨hname, rfl⟩ := fieldName_eq_some.mp (Fallible.okOr_eq_ok.mp hparse)
    obtain ⟨value, hvalue, h⟩ := Fallible.bind_eq_ok.mp h
    obtain ⟨hvalid, hbytes⟩ := FieldValue.parse_eq_some.mp (Fallible.okOr_eq_ok.mp hvalue)
    split_ifs at h with hconnection hte hhost
    cases h
    rw [hbytes] at hte
    exact ⟨⟨hname, hvalid, hconnection, fun hname => not_not.mp fun hne => hte ⟨hname, hne⟩⟩,
      hhost, value, hbytes, rfl⟩
  · rintro ⟨hline, hhost, value, hbytes, rfl⟩
    refine ⟨line.name, Fallible.okOr_eq_ok.mpr (fieldName_eq_some.mpr ⟨hline.name, rfl⟩), ?_⟩
    have hvalue := FieldValue.parse_eq_some.mpr ⟨hline.value, hbytes⟩
    refine Fallible.bind_eq_ok.mpr ⟨value, Fallible.okOr_eq_ok.mpr hvalue, ?_⟩
    have hte : ¬(line.name = ascii "te" ∧ value.bytes ≠ ascii "trailers") := by
      rintro ⟨hname, hne⟩
      exact hne (hbytes.trans (hline.te hname))
    rw [if_neg hline.not_connection, if_neg hte, if_neg hhost]

/-! ### Failures -/

/-- A violation that says the message is malformed. -/
def IsMalformed (v : Violation) : Prop :=
  ∃ detail, v = malformed detail

/-- `malformed` makes a malformed message of any detail. -/
theorem isMalformed (detail : String) : IsMalformed (malformed detail) :=
  ⟨detail, rfl⟩

/-- A value that is no ASCII text is malformed. -/
theorem asciiText_failsIn (bytes : List UInt8) (detail : String) :
    Fallible.FailsIn IsMalformed (asciiText bytes (malformed detail)) :=
  .okOr (isMalformed detail) _

/-- A bad scheme is malformed. -/
theorem uriScheme_failsIn (scheme : List UInt8) :
    Fallible.FailsIn IsMalformed (uriScheme scheme) := by
  unfold uriScheme
  simp only
  split_ifs
  · exact .error (isMalformed _)
  · exact asciiText_failsIn _ _

/-- A bad authority is malformed. -/
theorem uriAuthority_failsIn (authority : List UInt8) :
    Fallible.FailsIn IsMalformed (uriAuthority authority) := by
  unfold uriAuthority
  simp only
  split_ifs
  · exact .error (isMalformed _)
  · exact .error (isMalformed _)
  · exact asciiText_failsIn _ _

/-- A bad target is malformed. -/
theorem splitTarget_failsIn (target : List UInt8) (extended : Bool) :
    Fallible.FailsIn IsMalformed (splitTarget target extended) := by
  rw [splitTarget]
  split_ifs
  · exact .ok _
  · exact .error (isMalformed _)
  · cases cutAtQuery target with
    | mk path query =>
        simp only
        split_ifs
        · exact .error (isMalformed _)
        · exact .error (isMalformed _)
        · refine .bind (asciiText_failsIn _ _) fun path _ => ?_
          cases query with
          | none => exact .ok _
          | some query => exact .bind (asciiText_failsIn _ _) fun query _ => .ok _

/-- A bad regular field is malformed. -/
theorem addField_failsIn (fields : Fields) (name value : List UInt8) :
    Fallible.FailsIn IsMalformed (addField fields name value) := by
  rw [addField]
  refine .bind (.okOr (isMalformed _) _) fun name _ => ?_
  refine .bind (.okOr (isMalformed _) _) fun value _ => ?_
  split_ifs
  · exact .error (isMalformed _)
  · exact .error (isMalformed _)
  · exact .error (isMalformed _)
  · exact .ok _

namespace Builder

/-- Whatever a field line is refused for, the message is malformed. -/
theorem takeLine_failsIn (b : Builder) (line : Field) :
    Fallible.FailsIn IsMalformed (b.takeLine line) := by
  rw [takeLine]
  split
  · exact .bind (addField_failsIn _ _ _) fun fields _ => .ok _
  · split_ifs
    · exact .error (isMalformed _)
    · split
      · exact .error (isMalformed _)
      · split_ifs
        · exact .error (isMalformed _)
        · exact .ok _

/-- A request that lacks its method is malformed. -/
theorem named_failsIn (b : Builder) : Fallible.FailsIn IsMalformed b.named := by
  rw [named]
  split
  · split_ifs
    · exact .error (isMalformed _)
    · exact .ok _
  · exact .ok _
  · split_ifs
    · exact .error (isMalformed _)
    · split
      · exact .ok _
      · exact .error (isMalformed _)

/-- A bad CONNECT target is malformed. -/
theorem connectTarget_failsIn (b : Builder) : Fallible.FailsIn IsMalformed b.connectTarget := by
  rw [connectTarget]
  split_ifs
  · exact .error (isMalformed _)
  · refine .bind (.okOr (isMalformed _) _) fun authority _ => ?_
    exact .bind (uriAuthority_failsIn _) fun authority _ => .ok _

/-- A bad target of another method is malformed. -/
theorem uriTarget_failsIn (b : Builder) : Fallible.FailsIn IsMalformed b.uriTarget := by
  rw [uriTarget]
  refine .bind (.okOr (isMalformed _) _) fun scheme _ => ?_
  refine .bind (.okOr (isMalformed _) _) fun target _ => ?_
  refine .bind (named_failsIn b) fun named _ => ?_
  refine .bind (splitTarget_failsIn _ _) fun parts _ => ?_
  refine .bind (uriScheme_failsIn _) fun scheme _ => ?_
  exact .bind (uriAuthority_failsIn _) fun authority _ => .ok _

/-- A bad target of any method is malformed. -/
theorem target_failsIn (b : Builder) (method : Method) :
    Fallible.FailsIn IsMalformed (b.target method) := by
  rw [target]
  split_ifs
  · exact connectTarget_failsIn b
  · exact uriTarget_failsIn b

/-- A bad `:protocol` is malformed. -/
theorem protocol_failsIn (b : Builder) : Fallible.FailsIn IsMalformed b.protocol := by
  rw [protocol]
  split
  · exact .ok _
  · exact .bind (.okOr (isMalformed _) _) fun protocol _ => .ok _

/-- Whatever a request is refused for at its end, it is malformed. -/
theorem finish_failsIn (b : Builder) : Fallible.FailsIn IsMalformed b.finish := by
  rw [finish]
  refine .bind (.okOr (isMalformed _) _) fun method _ => ?_
  refine .bind (.okOr (isMalformed _) _) fun method _ => ?_
  split_ifs
  · exact .error (isMalformed _)
  · refine .bind (target_failsIn b method) fun target _ => ?_
    exact .bind (protocol_failsIn b) fun protocol _ => .ok _

end Builder

/-- **Every failure is a malformed message.** -/
theorem buildRequest_failsIn (lines : List Field) :
    Fallible.FailsIn IsMalformed (buildRequest lines) :=
  .bind (.foldlM Builder.takeLine_failsIn Builder.new lines) fun b _ => b.finish_failsIn

end Volto
