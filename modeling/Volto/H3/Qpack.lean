import Volto.Bytes
import Volto.H3.Huffman
import Volto.H3.PrefixInt
import Volto.Lib.Fallible

/-!
# QPACK Field Sections

Field-section coding of `h3/qpack.rs`, with the static table only: this server advertises a
zero table capacity, so a field line is a static reference or a literal, and a reference to
the dynamic table is a connection error.

`decode` reads the two integers of the section's start and then one line after another, and
gives up as soon as the fields read so far are larger than the advertised bound. `encode`
writes each field in one of three forms: the table entry that is equal to it, the first entry
with its name and a literal value, or two literals.

## Main results

* `find_holds`: what the search of the table finds is in the table.
* `takeLine_putLine`: one written line is read back, whatever follows.
* `decode_encode_fields`: a written section is read back exactly, up to the advertised bound.
-/

namespace Volto

namespace Qpack

/-- Per-field overhead in the size of a field section. -/
def fieldOverhead : ℕ := 32

/-- One decoded field line. -/
structure Field where
  name : List UInt8
  value : List UInt8
deriving DecidableEq, Repr

/-- The field's contribution to the field section size. -/
def Field.size (f : Field) : ℕ :=
  f.name.length + f.value.length + fieldOverhead

/-- The entries of the static table as the source spells them. -/
def staticLiterals : List (String × String) := [
  (":authority", ""),
  (":path", "/"),
  ("age", "0"),
  ("content-disposition", ""),
  ("content-length", "0"),
  ("cookie", ""),
  ("date", ""),
  ("etag", ""),
  ("if-modified-since", ""),
  ("if-none-match", ""),
  ("last-modified", ""),
  ("link", ""),
  ("location", ""),
  ("referer", ""),
  ("set-cookie", ""),
  (":method", "CONNECT"),
  (":method", "DELETE"),
  (":method", "GET"),
  (":method", "HEAD"),
  (":method", "OPTIONS"),
  (":method", "POST"),
  (":method", "PUT"),
  (":scheme", "http"),
  (":scheme", "https"),
  (":status", "103"),
  (":status", "200"),
  (":status", "304"),
  (":status", "404"),
  (":status", "503"),
  ("accept", "*/*"),
  ("accept", "application/dns-message"),
  ("accept-encoding", "gzip, deflate, br"),
  ("accept-ranges", "bytes"),
  ("access-control-allow-headers", "cache-control"),
  ("access-control-allow-headers", "content-type"),
  ("access-control-allow-origin", "*"),
  ("cache-control", "max-age=0"),
  ("cache-control", "max-age=2592000"),
  ("cache-control", "max-age=604800"),
  ("cache-control", "no-cache"),
  ("cache-control", "no-store"),
  ("cache-control", "public, max-age=31536000"),
  ("content-encoding", "br"),
  ("content-encoding", "gzip"),
  ("content-type", "application/dns-message"),
  ("content-type", "application/javascript"),
  ("content-type", "application/json"),
  ("content-type", "application/x-www-form-urlencoded"),
  ("content-type", "image/gif"),
  ("content-type", "image/jpeg"),
  ("content-type", "image/png"),
  ("content-type", "text/css"),
  ("content-type", "text/html; charset=utf-8"),
  ("content-type", "text/plain"),
  ("content-type", "text/plain;charset=utf-8"),
  ("range", "bytes=0-"),
  ("strict-transport-security", "max-age=31536000"),
  ("strict-transport-security", "max-age=31536000; includesubdomains"),
  ("strict-transport-security", "max-age=31536000; includesubdomains; preload"),
  ("vary", "accept-encoding"),
  ("vary", "origin"),
  ("x-content-type-options", "nosniff"),
  ("x-xss-protection", "1; mode=block"),
  (":status", "100"),
  (":status", "204"),
  (":status", "206"),
  (":status", "302"),
  (":status", "400"),
  (":status", "403"),
  (":status", "421"),
  (":status", "425"),
  (":status", "500"),
  ("accept-language", ""),
  ("access-control-allow-credentials", "FALSE"),
  ("access-control-allow-credentials", "TRUE"),
  ("access-control-allow-headers", "*"),
  ("access-control-allow-methods", "get"),
  ("access-control-allow-methods", "get, post, options"),
  ("access-control-allow-methods", "options"),
  ("access-control-expose-headers", "content-length"),
  ("access-control-request-headers", "content-type"),
  ("access-control-request-method", "get"),
  ("access-control-request-method", "post"),
  ("alt-svc", "clear"),
  ("authorization", ""),
  ("content-security-policy", "script-src 'none'; object-src 'none'; base-uri 'none'"),
  ("early-data", "1"),
  ("expect-ct", ""),
  ("forwarded", ""),
  ("if-range", ""),
  ("origin", ""),
  ("purpose", "prefetch"),
  ("server", ""),
  ("timing-allow-origin", "*"),
  ("upgrade-insecure-requests", "1"),
  ("user-agent", ""),
  ("x-forwarded-for", ""),
  ("x-frame-options", "deny"),
  ("x-frame-options", "sameorigin")
]

/-- The QPACK static table, indexed from 0. -/
def staticTable : List Field :=
  staticLiterals.map fun (name, value) => ⟨ascii name, ascii value⟩

/-- The static table has 99 entries. -/
theorem length_staticTable : staticTable.length = 99 := by
  rw [staticTable, List.length_map]
  rfl

/-! ### Errors -/

/-- A failure this decoder answers by closing the connection. -/
def connectionError (detail : String) : Violation :=
  Violation.connection Code.qpackDecompressionFailed detail

/-- A reference to the dynamic table, which this decoder never has entries for. -/
def dynamicReference : Violation :=
  connectionError "a dynamic table reference with a zero table capacity"

/-- A section larger than what the peer was told to send. -/
def sectionTooLarge (maxSectionSize : ℕ) : Violation :=
  Violation.fieldSectionTooLarge
    ("field section exceeds the advertised " ++ toString maxSectionSize ++ " bytes")

/-- Looks up a static table entry, rejecting an index past its end. -/
def staticEntry (index : ℕ) : Except Violation Field :=
  match staticTable[index]? with
  | some entry => .ok entry
  | none => .error (connectionError "static table index out of range")

/-! ### String literals -/

/-- Reads a string literal: a length with an `H` bit above it, then bytes. -/
def takeString (prefixBits : ℕ) (buf : List UInt8) :
    Except Violation (List UInt8 × List UInt8) := do
  let (flags, length, buf) ← takeInt prefixBits buf
  if buf.length < length then
    .error truncated
  else if flags &&& 1 = 0 then
    .ok (buf.take length, buf.drop length)
  else
    let literal ← Huffman.decode (buf.take length)
    .ok (literal, buf.drop length)

/-- Writes a string literal, never Huffman-encoded. -/
def putString (prefixBits flags : ℕ) (value : List UInt8) : List UInt8 :=
  putInt prefixBits (flags <<< 1) value.length ++ value

/-! ### Reading a section -/

/-- Reads one field line, whose first byte is `first`. The bits of the first byte tell the
five representations apart; the two with a post-base index only name dynamic entries. -/
def takeLine (first : UInt8) (buf : List UInt8) : Except Violation (Field × List UInt8) :=
  if first.toNat &&& 0x80 ≠ 0 then do
    let (_, index, buf) ← takeInt 6 buf
    if first.toNat &&& 0x40 = 0 then
      .error dynamicReference
    else
      let entry ← staticEntry index
      .ok (entry, buf)
  else if first.toNat &&& 0xc0 = 0x40 then do
    let (_, index, buf) ← takeInt 4 buf
    if first.toNat &&& 0x10 = 0 then
      .error dynamicReference
    else
      let entry ← staticEntry index
      let (value, buf) ← takeString 7 buf
      .ok (⟨entry.name, value⟩, buf)
  else if first.toNat &&& 0xe0 = 0x20 then do
    let (name, buf) ← takeString 3 buf
    let (value, buf) ← takeString 7 buf
    .ok (⟨name, value⟩, buf)
  else
    .error dynamicReference

/-- Reading a string literal consumes at least a byte. -/
theorem takeString_length {prefixBits : ℕ} {value buf rest : List UInt8}
    (h : takeString prefixBits buf = .ok (value, rest)) : rest.length < buf.length := by
  obtain ⟨⟨flags, length, buf'⟩, hint, h⟩ := Fallible.bind_eq_ok.mp h
  have hlt := takeInt_length hint
  have hdrop : (buf'.drop length).length < buf.length := by
    rw [List.length_drop]
    omega
  simp only at h
  split_ifs at h
  · cases h
    exact hdrop
  · obtain ⟨literal, -, h⟩ := Fallible.bind_eq_ok.mp h
    cases h
    exact hdrop

/-- Reading a field line consumes at least a byte. -/
theorem takeLine_length {first : UInt8} {buf rest : List UInt8} {field : Field}
    (h : takeLine first buf = .ok (field, rest)) : rest.length < buf.length := by
  rw [takeLine] at h
  split at h
  · obtain ⟨⟨_, index, buf'⟩, hint, h⟩ := Fallible.bind_eq_ok.mp h
    simp only at h
    split_ifs at h
    obtain ⟨entry, -, h⟩ := Fallible.bind_eq_ok.mp h
    cases h
    exact takeInt_length hint
  · split at h
    · obtain ⟨⟨_, index, buf'⟩, hint, h⟩ := Fallible.bind_eq_ok.mp h
      simp only at h
      split_ifs at h
      obtain ⟨entry, -, h⟩ := Fallible.bind_eq_ok.mp h
      obtain ⟨⟨value, buf''⟩, hvalue, h⟩ := Fallible.bind_eq_ok.mp h
      cases h
      exact (takeString_length hvalue).trans (takeInt_length hint)
    · split at h
      · obtain ⟨⟨name, buf'⟩, hname, h⟩ := Fallible.bind_eq_ok.mp h
        obtain ⟨⟨value, buf''⟩, hvalue, h⟩ := Fallible.bind_eq_ok.mp h
        cases h
        exact (takeString_length hvalue).trans (takeString_length hname)
      · cases h

/-- The loop over the field lines, with the size and the fields read so far. -/
def decodeLines (maxSectionSize size : ℕ) (fields : List Field) :
    List UInt8 → Except Violation (List Field)
  | [] => .ok fields
  | first :: tail =>
      match _hline : takeLine first (first :: tail) with
      | .error violation => .error violation
      | .ok (field, rest) =>
          if maxSectionSize < size + field.size then
            .error (sectionTooLarge maxSectionSize)
          else
            decodeLines maxSectionSize (size + field.size) (fields ++ [field]) rest
termination_by buf => buf.length
decreasing_by exact takeLine_length _hline

/-- Decodes an encoded field section. -/
def decode (block : List UInt8) (maxSectionSize : ℕ) : Except Violation (List Field) := do
  let (_, requiredInsertCount, buf) ← takeInt 8 block
  if requiredInsertCount ≠ 0 then
    .error (connectionError "a non-zero Required Insert Count with no dynamic table")
  else
    let (flags, _, buf) ← takeInt 7 buf
    if flags &&& 1 = 1 then
      .error (connectionError "a Sign bit of 1 with a zero Required Insert Count")
    else
      decodeLines maxSectionSize 0 [] buf

/-! ### Writing a section -/

/-- What the static table has to offer for one field. -/
inductive Found
  /-- Both name and value match this entry. -/
  | entry (index : ℕ)
  /-- Only the name matches, at this entry first. -/
  | name (index : ℕ)
  /-- Neither: the field has to be spelled out. -/
  | nothing
deriving DecidableEq, Repr

/-- The pass over the table: the index it has reached, and the first entry so far whose name
matches. -/
def findLoop (name value : List UInt8) (index : ℕ) (nameOnly : Option ℕ) : List Field → Found
  | [] =>
      match nameOnly with
      | some index => .name index
      | none => .nothing
  | entry :: entries =>
      if entry.name ≠ name then
        findLoop name value (index + 1) nameOnly entries
      else if entry.value = value then
        .entry index
      else
        findLoop name value (index + 1) (some (nameOnly.getD index)) entries

/-- Searches the static table for `name` and `value`, in one pass. -/
def find (name value : List UInt8) : Found :=
  findLoop name value 0 none staticTable

/-- Writes one field line. -/
def putLine (name value : List UInt8) : List UInt8 :=
  match find name value with
  | .entry index => putInt 6 0b11 index
  | .name index => putInt 4 0b0101 index ++ putString 7 0 value
  | .nothing => putString 3 0b0010 name ++ putString 7 0 value

/-- Encodes a field section: its start, then one line for each field. -/
def encode (fields : List (Slice × Slice)) : List UInt8 :=
  0 :: 0 :: fields.flatMap fun (name, value) => putLine name.bytes value.bytes

/-! ### The search of the static table -/

/-- An answer about `table` that only names entries it has, with the name and, for a full
match, the value searched for. -/
def Found.Holds (table : List Field) (name value : List UInt8) : Found → Prop
  | .entry index => table[index]? = some ⟨name, value⟩
  | .name index => ∃ other, table[index]? = some ⟨name, other⟩
  | .nothing => True

/-- **The search is right about what it finds.** The pass has `before` behind it, and the
entry it remembers, if any, is one of `before` with the right name. -/
theorem findLoop_holds {name value : List UInt8} {nameOnly : Option ℕ}
    (before entries : List Field)
    (h : ∀ index ∈ nameOnly, ∃ other, (before ++ entries)[index]? = some ⟨name, other⟩) :
    (findLoop name value before.length nameOnly entries).Holds (before ++ entries) name value := by
  induction entries generalizing before nameOnly with
  | nil =>
      cases nameOnly with
      | none => trivial
      | some index => exact h index rfl
  | cons entry entries ih =>
      have hhere : (before ++ entry :: entries)[before.length]? = some entry := by
        rw [List.getElem?_append_right le_rfl, Nat.sub_self]
        rfl
      have hstep : before ++ entry :: entries = (before ++ [entry]) ++ entries := by
        rw [List.append_assoc, List.singleton_append]
      have hlength : before.length + 1 = (before ++ [entry]).length := by
        rw [List.length_append, List.length_singleton]
      rw [findLoop]
      split_ifs with hname hvalue
      · rw [hlength, hstep]
        exact ih _ (hstep ▸ h)
      · subst hvalue
        rw [not_not] at hname
        subst hname
        exact hhere
      · rw [not_not] at hname
        rw [hlength, hstep]
        refine ih _ ?_
        rw [← hstep]
        -- the remembered entry stays; a first one is this entry
        cases nameOnly with
        | none =>
            rintro _ ⟨⟩
            exact ⟨entry.value, by rw [Option.getD_none, hhere, ← hname]⟩
        | some index =>
            rintro _ ⟨⟩
            exact h index rfl

/-- **What the search of the static table finds is in the table.** -/
theorem find_holds (name value : List UInt8) :
    (find name value).Holds staticTable name value :=
  findLoop_holds [] staticTable (by rintro _ ⟨⟩)

/-- An index into the static table fits every representation. -/
theorem index_lt {index : ℕ} {entry : Field} (h : staticTable[index]? = some entry) :
    index < 2 ^ 64 := by
  have hlt : index < staticTable.length := (List.getElem?_eq_some_iff.mp h).1
  rw [length_staticTable] at hlt
  exact hlt.trans (by decide)

/-- An entry of the table is looked up by its index. -/
theorem staticEntry_eq {index : ℕ} {entry : Field} (h : staticTable[index]? = some entry) :
    staticEntry index = .ok entry := by
  rw [staticEntry, h]

/-! ### Reading back what was written -/

/-- **A string literal is read back**, whatever follows: its length is below its flags, and
its Huffman bit is clear. -/
theorem takeString_putString (prefixBits flags : ℕ) {value : List UInt8}
    (hflags : flags * 2 * 2 ^ prefixBits < 256) (hbits : prefixBits ≤ 8)
    (hvalue : value.length < 2 ^ 64) (rest : List UInt8) :
    takeString prefixBits (putString prefixBits flags value ++ rest) = .ok (value, rest) := by
  have hshift : flags <<< 1 = flags * 2 := by
    rw [Nat.shiftLeft_eq, pow_one]
  have hbit : flags * 2 &&& 1 = 0 := by
    rw [Nat.and_one_is_mod, Nat.mul_mod_left]
  rw [takeString, putString, hshift, List.append_assoc, takeInt_putInt hflags hbits hvalue]
  simp only [Fallible.ok_bind, hbit, if_true]
  rw [if_neg (by rw [List.length_append]; omega), List.take_left, List.drop_left]

/-- The first byte of an indexed line: static. -/
theorem bits_of_indexed {first : UInt8} (h : first.toNat >>> 6 = 0b11) :
    first.toNat &&& 0x80 ≠ 0 ∧ first.toNat &&& 0x40 ≠ 0 := by
  have hall : ∀ n < 256, n >>> 6 = 0b11 → n &&& 0x80 ≠ 0 ∧ n &&& 0x40 ≠ 0 := by
    decide +kernel
  exact hall _ first.toNat_lt h

/-- The first byte of a literal with a name reference: static. -/
theorem bits_of_nameReference {first : UInt8} (h : first.toNat >>> 4 = 0b0101) :
    first.toNat &&& 0x80 = 0 ∧ first.toNat &&& 0xc0 = 0x40 ∧ first.toNat &&& 0x10 ≠ 0 := by
  have hall : ∀ n < 256, n >>> 4 = 0b0101 →
      n &&& 0x80 = 0 ∧ n &&& 0xc0 = 0x40 ∧ n &&& 0x10 ≠ 0 := by
    decide +kernel
  exact hall _ first.toNat_lt h

/-- The first byte of a literal with a literal name. -/
theorem bits_of_literal {first : UInt8} (h : first.toNat >>> 3 = 0b0010 <<< 1) :
    first.toNat &&& 0x80 = 0 ∧ first.toNat &&& 0xc0 ≠ 0x40 ∧ first.toNat &&& 0xe0 = 0x20 := by
  have hall : ∀ n < 256, n >>> 3 = 0b0010 <<< 1 →
      n &&& 0x80 = 0 ∧ n &&& 0xc0 ≠ 0x40 ∧ n &&& 0xe0 = 0x20 := by
    decide +kernel
  exact hall _ first.toNat_lt h

/-- Reading an indexed line. -/
theorem takeLine_entry {first : UInt8} {buf rest : List UInt8} {flags index : ℕ} {entry : Field}
    (hfirst : first.toNat >>> 6 = 0b11) (hint : takeInt 6 buf = .ok (flags, index, rest))
    (hentry : staticTable[index]? = some entry) : takeLine first buf = .ok (entry, rest) := by
  obtain ⟨hindexed, hstatic⟩ := bits_of_indexed hfirst
  rw [takeLine, if_pos hindexed, hint]
  simp only [Fallible.ok_bind, if_neg hstatic, staticEntry_eq hentry]

/-- Reading a literal with a name reference. -/
theorem takeLine_name {first : UInt8} {buf buf' rest value : List UInt8} {flags index : ℕ}
    {entry : Field} (hfirst : first.toNat >>> 4 = 0b0101)
    (hint : takeInt 4 buf = .ok (flags, index, buf')) (hentry : staticTable[index]? = some entry)
    (hvalue : takeString 7 buf' = .ok (value, rest)) :
    takeLine first buf = .ok (⟨entry.name, value⟩, rest) := by
  obtain ⟨hindexed, hname, hstatic⟩ := bits_of_nameReference hfirst
  rw [takeLine, if_neg (not_not.mpr hindexed), if_pos hname, hint]
  simp only [Fallible.ok_bind, if_neg hstatic, staticEntry_eq hentry, hvalue]

/-- Reading a literal with a literal name. -/
theorem takeLine_literal {first : UInt8} {buf buf' rest name value : List UInt8}
    (hfirst : first.toNat >>> 3 = 0b0010 <<< 1) (hname : takeString 3 buf = .ok (name, buf'))
    (hvalue : takeString 7 buf' = .ok (value, rest)) :
    takeLine first buf = .ok (⟨name, value⟩, rest) := by
  obtain ⟨hindexed, hreference, hliteral⟩ := bits_of_literal hfirst
  rw [takeLine, if_neg (not_not.mpr hindexed), if_neg hreference, if_pos hliteral, hname]
  simp only [Fallible.ok_bind, hvalue]

/-- **A written line is read back**, in whichever of the three forms the search chose. -/
theorem takeLine_putLine {name value : List UInt8} (hname : name.length < 2 ^ 64)
    (hvalue : value.length < 2 ^ 64) (rest : List UInt8) :
    ∃ first tail, putLine name value ++ rest = first :: tail ∧
      takeLine first (first :: tail) = .ok (⟨name, value⟩, rest) := by
  have hstring := takeString_putString 7 0 (by decide) (by decide)
    hvalue rest
  have hfound := find_holds name value
  rw [putLine]
  cases hfind : find name value with
  | entry index =>
      rw [hfind] at hfound
      obtain ⟨first, tail, hput, hfirst⟩ :=
        putInt_cons 6 0b11 (by decide) (by decide) index
      simp only
      refine ⟨first, tail ++ rest, by rw [hput, List.cons_append], ?_⟩
      rw [← List.cons_append, ← hput]
      exact takeLine_entry hfirst
        (takeInt_putInt (by decide) (by decide) (index_lt hfound) rest) hfound
  | name index =>
      rw [hfind] at hfound
      obtain ⟨other, hentry⟩ := hfound
      obtain ⟨first, tail, hput, hfirst⟩ :=
        putInt_cons 4 0b0101 (by decide) (by decide) index
      simp only
      refine ⟨first, tail ++ putString 7 0 value ++ rest, by
        rw [hput, List.cons_append, List.cons_append], ?_⟩
      rw [← List.cons_append, ← List.cons_append, ← hput, List.append_assoc]
      exact takeLine_name hfirst
        (takeInt_putInt (by decide) (by decide) (index_lt hentry) _) hentry hstring
  | nothing =>
      obtain ⟨first, tail, hput, hfirst⟩ :=
        putInt_cons 3 (0b0010 <<< 1) (by decide) (by decide) name.length
      have hput : putString 3 0b0010 name = first :: (tail ++ name) := by
        rw [putString, hput, List.cons_append]
      simp only
      refine ⟨first, tail ++ name ++ putString 7 0 value ++ rest, by
        rw [hput, List.cons_append, List.cons_append], ?_⟩
      rw [← List.cons_append, ← List.cons_append, ← hput, List.append_assoc]
      exact takeLine_literal hfirst
        (takeString_putString 3 0b0010 (by decide) (by decide) hname _) hstring

/-- The field a pair of slices names. -/
def fieldOf (pair : Slice × Slice) : Field :=
  ⟨pair.1.bytes, pair.2.bytes⟩

/-- The size of a field section. -/
def sectionSize (fields : List Field) : ℕ :=
  (fields.map Field.size).sum

/-- **The loop reads the written lines back**, on top of what it has read, for as long as the
fields stay within the bound. -/
theorem decodeLines_putLines (maxSectionSize size : ℕ) (fields : List Field)
    (hsize : size ≤ maxSectionSize) (pairs : List (Slice × Slice)) :
    decodeLines maxSectionSize size fields
        (pairs.flatMap fun (name, value) => putLine name.bytes value.bytes) =
      if size + sectionSize (pairs.map fieldOf) ≤ maxSectionSize then
        .ok (fields ++ pairs.map fieldOf)
      else
        .error (sectionTooLarge maxSectionSize) := by
  induction pairs generalizing size fields with
  | nil =>
      rw [List.flatMap_nil, decodeLines, List.map_nil, List.append_nil]
      exact (if_pos hsize).symm
  | cons pair pairs ih =>
      obtain ⟨first, tail, hline, htake⟩ := takeLine_putLine pair.1.length_lt pair.2.length_lt
        (pairs.flatMap fun (name, value) => putLine name.bytes value.bytes)
      change takeLine first (first :: tail) = .ok (fieldOf pair, _) at htake
      have hsum : sectionSize ((pair :: pairs).map fieldOf) =
          (fieldOf pair).size + sectionSize (pairs.map fieldOf) := by
        rw [sectionSize, List.map_cons, List.map_cons, List.sum_cons]
        rfl
      rw [List.flatMap_cons, hline, decodeLines, htake, hsum]
      simp only
      split_ifs with hlarge hfits hfits
      · omega
      · rfl
      · rw [ih _ _ (by omega), if_pos (by omega), List.append_assoc]
        rfl
      · rw [ih _ _ (by omega), if_neg (by omega)]

/-- **Field sections round-trip.** Whatever the fields, a section encoded from them decodes to
exactly them, in order, when their size is within the bound, and to the one violation a 431
answers when it is not. -/
theorem decode_encode_fields (pairs : List (Slice × Slice)) (maxSectionSize : ℕ) :
    decode (encode pairs) maxSectionSize =
      if (pairs.map fun (name, value) => name.bytes.length + value.bytes.length + 32).sum ≤
          maxSectionSize then
        .ok (pairs.map fun (name, value) => ⟨name.bytes, value.bytes⟩)
      else
        .error (Violation.fieldSectionTooLarge
          ("field section exceeds the advertised " ++ toString maxSectionSize ++ " bytes")) := by
  have hcount : takeInt 8 (encode pairs) = .ok (0, 0, (encode pairs).drop 1) := rfl
  have hbase : takeInt 7 ((encode pairs).drop 1) = .ok (0, 0, (encode pairs).drop 2) := rfl
  have hsize : (pairs.map fun (name, value) =>
      name.bytes.length + value.bytes.length + 32).sum = sectionSize (pairs.map fieldOf) := by
    rw [sectionSize, List.map_map]
    rfl
  rw [decode, hcount, hsize]
  simp only [Fallible.ok_bind, hbase, ne_eq, not_true_eq_false, if_false]
  rw [if_neg (by decide)]
  have hlines := decodeLines_putLines maxSectionSize 0 [] (Nat.zero_le _) pairs
  rw [Nat.zero_add, List.nil_append] at hlines
  exact hlines

end Qpack

end Volto
