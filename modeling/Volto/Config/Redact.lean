import Volto.Offsets

/-!
# Parse Errors Without Values

What `config.rs` makes of a parser's complaint about the configuration file. The message quotes
the value it objects to, and that value may be a password, so each quoted segment is replaced by
one marker before the message is printed.

A segment in double quotes is a `Debug` rendering, and ends at the first double quote that no
backslash escapes. A segment in backticks has no escapes, and ends at the next backtick. The scan
for the end runs over bytes, and the slices it leads to are of text: an offset inside a character
would be a panic, and is `none` here.

## Main results

* `redactQuoted_render`: every segment of a message is replaced by the marker, and the text around
  the segments is left as it is.
* `redactQuoted_unclosed`: nothing after a quote that is never closed is printed.
* `exists_message`: every message is of one of these two shapes.
* `parse_error_hides_values`: the three together, and the error they are printed in.
-/

namespace Volto.Config

/-- What a redacted quoted segment is replaced by. -/
def redactedMarker : List Char :=
  "`<redacted>`".toList

/-- Whether `character` is one of the two a parser message quotes with. -/
def isQuote (character : Char) : Bool :=
  character == '\x60' || character == '"'

/-- The index of the double quote that ends the bytes, where a backslash takes the byte after it
along. -/
def closingByte (index : ℕ) : List UInt8 → Option ℕ
  | [] => none
  | byte :: bytes =>
      if byte = 0x5c then closingByte (index + 2) bytes.tail
      else if byte = 0x22 then some index
      else closingByte (index + 1) bytes
termination_by bytes => bytes.length
decreasing_by all_goals grind

/-- The offset of the character that closes a segment `quote` opened, counted from the character
after that opening quote. -/
def closingQuote (rest : List Char) (quote : Char) : Option ℕ :=
  if quote ≠ '"' then findChar (· == quote) rest
  else closingByte 0 (encodeChars rest)

/-- The loop of `redactQuoted`: what has been redacted so far, and what is left. -/
def redactFrom (redacted rest : List Char) : Option (List Char) :=
  match findChar isQuote rest with
  | none => some (redacted ++ rest)
  | some start => do
      let text ← sliceTo rest start
      let byte ← (encodeChars rest)[start]?
      let body ← sliceFrom rest (start + 1)
      match closingQuote body (Char.ofUInt8 byte) with
      | none => some (redacted ++ text ++ redactedMarker)
      | some close =>
          match _h : sliceFrom rest (start + 1 + close + 1) with
          | none => none
          | some rest' => redactFrom (redacted ++ text ++ redactedMarker) rest'
termination_by rest.length
decreasing_by exact length_lt_of_sliceFrom _h

/-- Replaces every quoted segment of a parser message. `none` is a slice off the boundaries of the
text. -/
def redactQuoted (message : List Char) : Option (List Char) :=
  redactFrom [] message

/-- The 1-based line and column of a byte offset into `text`, if it has one. -/
def lineAndColumn (text : List Char) (offset : ℕ) : Option (ℕ × ℕ) := do
  let before ← sliceTo text offset
  let line := before.count '\n' + 1
  let column := (before.reverse.takeWhile (· ≠ '\n')).length + 1
  some (line, column)

/-- The error for a file that does not parse: the parser's message, redacted, and the position it
points at, when this text has one. -/
def parseError (path : String) (text : List Char) (span : Option ℕ) (message : List Char) :
    Option String := do
  let message ← redactQuoted message
  match span.bind (lineAndColumn text) with
  | none => some ("failed to parse config file " ++ path ++ ": " ++ String.ofList message)
  | some (line, column) =>
      some ("failed to parse config file " ++ path ++ " at line " ++ toString line ++ ", column " ++
        toString column ++ ": " ++ String.ofList message)

/-! ### Messages -/

/-- What stands between double quotes: plain characters, and backslashes each with the character
it escapes. -/
inductive Escaped : List Char → Prop
  | nil : Escaped []
  | plain {char : Char} {body : List Char} (hquote : char ≠ '"') (hescape : char ≠ '\\')
      (hbody : Escaped body) : Escaped (char :: body)
  | escape (char : Char) {body : List Char} (hbody : Escaped body) : Escaped ('\\' :: char :: body)

/-- The two quotes of a parser message. -/
inductive Quote where
  | double
  | backtick
deriving DecidableEq, Repr

namespace Quote

/-- The character that opens and closes a segment. -/
def char : Quote → Char
  | double => '"'
  | backtick => '\x60'

/-- What may stand between two quotes of a kind. -/
def Body : Quote → List Char → Prop
  | double, body => Escaped body
  | backtick, body => backtick.char ∉ body

/-- No segment that a quote opened ends in this text. -/
def Unclosed (quote : Quote) (tail : List Char) : Prop :=
  ∀ body rest, quote.Body body → tail ≠ body ++ quote.char :: rest

end Quote

/-- Text without quotes. -/
structure Plain where
  chars : List Char
  bare : ∀ char ∈ chars, isQuote char = false

/-- A quoted segment. -/
structure Segment where
  quote : Quote
  body : List Char
  closed : quote.Body body

/-- A segment as it is written. -/
def Segment.render (segment : Segment) : List Char :=
  segment.quote.char :: (segment.body ++ [segment.quote.char])

/-- A message: text without quotes, and the segments between. -/
structure Message where
  pieces : List (Plain × Segment)
  last : Plain

namespace Message

/-- A message as it is written. -/
def render (message : Message) : List Char :=
  message.pieces.flatMap (fun piece => piece.1.chars ++ piece.2.render) ++ message.last.chars

/-- The text of a message, without its segments. -/
def texts (message : Message) : List Plain × Plain :=
  (message.pieces.map Prod.fst, message.last)

/-- Text with the marker wherever a segment stood. -/
def redacted (texts : List Plain × Plain) : List Char :=
  texts.1.flatMap (fun text => text.chars ++ redactedMarker) ++ texts.2.chars

end Message

/-! ### Where a segment ends -/

/-- No quote closes an empty text. -/
theorem closingByte_nil (index : ℕ) : closingByte index [] = none := by
  rw [closingByte]

/-- A quote closes the text. -/
theorem closingByte_quote (index : ℕ) (bytes : List UInt8) :
    closingByte index (0x22 :: bytes) = some index := by
  rw [closingByte, if_neg (by decide), if_pos rfl]

/-- An escape hides the byte behind it. -/
theorem closingByte_escape (index : ℕ) (bytes : List UInt8) :
    closingByte index (0x5c :: bytes) = closingByte (index + 2) bytes.tail := by
  rw [closingByte, if_pos rfl]

/-- Bytes that are neither quote nor backslash are passed. -/
theorem closingByte_append {passed : List UInt8} (h : ∀ byte ∈ passed, byte ≠ 0x5c ∧ byte ≠ 0x22)
    (index : ℕ) (bytes : List UInt8) :
    closingByte index (passed ++ bytes) = closingByte (index + passed.length) bytes := by
  induction passed generalizing index with
  | nil => rfl
  | cons byte passed ih =>
      obtain ⟨⟨hescape, hquote⟩, hpassed⟩ := List.forall_mem_cons.mp h
      rw [List.cons_append, closingByte, if_neg hescape, if_neg hquote, ih hpassed,
        List.length_cons]
      congr 1
      omega

/-- No byte of a wide character is a quote or a backslash. -/
theorem passed_of_wide {bytes : List UInt8} (h : ∀ byte ∈ bytes, 0x80 ≤ byte.toNat) :
    ∀ byte ∈ bytes, byte ≠ 0x5c ∧ byte ≠ 0x22 := by
  intro byte hbyte
  have hwide := h byte hbyte
  constructor
  · rintro rfl
    exact absurd hwide (by decide)
  · rintro rfl
    exact absurd hwide (by decide)

/-- An ASCII character is told by its byte. -/
theorem ofNat_toNat_ne {char other : Char} (hchar : char.toNat < 0x80) (hother : other.toNat < 0x80)
    (hne : char ≠ other) : UInt8.ofNat char.toNat ≠ UInt8.ofNat other.toNat := by
  intro h
  have hnat := congrArg UInt8.toNat h
  rw [UInt8.toNat_ofNat', UInt8.toNat_ofNat', Nat.mod_eq_of_lt (by omega),
    Nat.mod_eq_of_lt (by omega)] at hnat
  exact hne (Char.toNat_inj.mp hnat)

/-- The bytes of a plain character are passed. -/
theorem passed_of_plain {char : Char} (hquote : char ≠ '"') (hescape : char ≠ '\\') :
    ∀ byte ∈ String.utf8EncodeChar char, byte ≠ 0x5c ∧ byte ≠ 0x22 := by
  obtain hascii | hwide := Nat.lt_or_ge char.toNat 0x80
  · rw [encodeChar_ascii hascii]
    intro byte hbyte
    obtain rfl := List.mem_singleton.mp hbyte
    exact ⟨ofNat_toNat_ne hascii (by decide : '\\'.toNat < 0x80) hescape,
      ofNat_toNat_ne hascii (by decide : '"'.toNat < 0x80) hquote⟩
  · exact passed_of_wide (encodeChar_wide hwide)

/-- What is left of an escaped character, after its first byte, is passed. -/
theorem passed_tail (char : Char) :
    ∀ byte ∈ (String.utf8EncodeChar char).tail, byte ≠ 0x5c ∧ byte ≠ 0x22 := by
  obtain hascii | hwide := Nat.lt_or_ge char.toNat 0x80
  · rw [encodeChar_ascii hascii]
    intro byte hbyte
    exact absurd hbyte List.not_mem_nil
  · exact passed_of_wide fun byte hbyte => encodeChar_wide hwide byte (List.mem_of_mem_tail hbyte)

/-- A plain character is passed whole. -/
theorem closingByte_plain {char : Char} (hquote : char ≠ '"') (hescape : char ≠ '\\')
    (index : ℕ) (chars : List Char) :
    closingByte index (encodeChars (char :: chars)) =
      closingByte (index + char.utf8Size) (encodeChars chars) := by
  rw [encodeChars_cons, closingByte_append (passed_of_plain hquote hescape),
    String.length_utf8EncodeChar]

/-- A backslash takes a whole character along: the scan skips its first byte and passes the
others. -/
theorem closingByte_escaped (char : Char) (index : ℕ) (chars : List Char) :
    closingByte index (encodeChars ('\\' :: char :: chars)) =
      closingByte (index + byteLength ['\\', char]) (encodeChars chars) := by
  have hlength : (String.utf8EncodeChar char).tail.length = char.utf8Size - 1 := by
    rw [List.length_tail, String.length_utf8EncodeChar]
  have hpos := char.utf8Size_pos
  have hbackslash : String.utf8EncodeChar '\\' = [0x5c] := by decide
  have htail : (String.utf8EncodeChar char ++ encodeChars chars).tail =
      (String.utf8EncodeChar char).tail ++ encodeChars chars :=
    List.tail_append_of_ne_nil (utf8EncodeChar_ne_nil char)
  rw [encodeChars_cons, encodeChars_cons, hbackslash, List.singleton_append, closingByte_escape,
    htail, closingByte_append (passed_tail char), hlength]
  congr 1
  have hone : '\\'.utf8Size = 1 := by decide
  simp only [byteLength_cons, byteLength_nil, hone]
  omega

/-- The scan ends at the quote after an escaped body. -/
theorem closingByte_of_escaped {body : List Char} (hbody : Escaped body) (index : ℕ)
    (rest : List Char) :
    closingByte index (encodeChars (body ++ '"' :: rest)) = some (index + byteLength body) := by
  induction hbody generalizing index with
  | nil => exact closingByte_quote index (encodeChars rest)
  | plain hquote hescape _ ih =>
      rw [List.cons_append, closingByte_plain hquote hescape, ih, byteLength_cons, Nat.add_assoc]
  | escape char _ ih =>
      rw [List.cons_append, List.cons_append, closingByte_escaped, ih]
      simp only [byteLength_cons, byteLength_nil]
      congr 1
      omega

/-- Where the scan finds an end, an escaped body stands before it. -/
theorem escaped_of_closingByte {chars : List Char} {index close : ℕ}
    (h : closingByte index (encodeChars chars) = some close) :
    ∃ body rest, chars = body ++ '"' :: rest ∧ Escaped body := by
  induction hn : chars.length using Nat.strong_induction_on generalizing chars index with
  | _ n ih =>
      subst hn
      obtain - | ⟨char, chars⟩ := chars
      · exact absurd h (by rw [show encodeChars [] = [] from rfl, closingByte_nil]; simp)
      by_cases hquote : char = '"'
      · subst hquote
        exact ⟨[], chars, rfl, .nil⟩
      by_cases hescape : char = '\\'
      · subst hescape
        obtain - | ⟨escaped, chars⟩ := chars
        · have hbytes : encodeChars ['\\'] = [0x5c] := by decide
          rw [hbytes, closingByte_escape, List.tail_nil, closingByte_nil] at h
          exact absurd h (by simp)
        rw [closingByte_escaped] at h
        have hlt : chars.length < ('\\' :: escaped :: chars).length := by
          simp only [List.length_cons]
          omega
        obtain ⟨body, rest, rfl, hbody⟩ := ih chars.length hlt h rfl
        exact ⟨'\\' :: escaped :: body, rest, rfl, .escape escaped hbody⟩
      · rw [closingByte_plain hquote hescape] at h
        obtain ⟨body, rest, rfl, hbody⟩ := ih chars.length (by simp) h rfl
        exact ⟨char :: body, rest, rfl, .plain hquote hescape hbody⟩

/-- **A segment ends where its quote closes it.** -/
theorem closingQuote_of_body {quote : Quote} {body : List Char} (hbody : quote.Body body)
    (rest : List Char) :
    closingQuote (body ++ quote.char :: rest) quote.char = some (byteLength body) := by
  rcases quote with - | -
  · rw [closingQuote, if_neg (by decide)]
    have h := closingByte_of_escaped hbody 0 rest
    rwa [Nat.zero_add] at h
  · rw [closingQuote, if_pos (by decide)]
    refine findChar_append (p := (· == Quote.backtick.char)) ?_ (beq_self_eq_true _) rest
    intro other hother
    rw [beq_eq_false_iff_ne]
    rintro rfl
    exact hbody hother

/-- A quote that is never closed has no end. -/
theorem closingQuote_of_unclosed {quote : Quote} {tail : List Char} (h : quote.Unclosed tail) :
    closingQuote tail quote.char = none := by
  rcases quote with - | -
  · rw [closingQuote, if_neg (by decide), Option.eq_none_iff_forall_ne_some]
    intro close hclose
    obtain ⟨body, rest, rfl, hbody⟩ := escaped_of_closingByte hclose
    exact h body rest hbody rfl
  · rw [closingQuote, if_pos (by decide)]
    obtain hnone | ⟨body, char, rest, rfl, hbody, hchar⟩ :=
      forall_or_exists_first (· == Quote.backtick.char) tail
    · exact findChar_eq_none hnone
    · obtain rfl : char = Quote.backtick.char := by simpa using hchar
      refine absurd rfl (h body rest ?_)
      intro hmem
      have hfalse := hbody _ hmem
      rw [beq_self_eq_true] at hfalse
      exact Bool.noConfusion hfalse

/-! ### Redaction -/

/-- Each of the two is a quote, and one byte. -/
theorem Quote.isQuote_char (quote : Quote) : isQuote quote.char = true := by
  cases quote <;> decide

/-- A quote is one byte. -/
theorem Quote.utf8Size_char (quote : Quote) : quote.char.utf8Size = 1 := by
  cases quote <;> decide

/-- A character that is a quote is one of the two. -/
theorem Quote.exists_eq_char {char : Char} (h : isQuote char = true) :
    ∃ quote : Quote, char = quote.char := by
  rw [isQuote, Bool.or_eq_true, beq_iff_eq, beq_iff_eq] at h
  obtain rfl | rfl := h
  · exact ⟨.backtick, rfl⟩
  · exact ⟨.double, rfl⟩

/-- The byte at the offset of a quote is the quote. -/
theorem getElem?_quote (before : List Char) (quote : Quote) (after : List Char) :
    (encodeChars (before ++ quote.char :: after))[byteLength before]? =
      some (UInt8.ofNat quote.char.toNat) := by
  have hquote : String.utf8EncodeChar quote.char = [UInt8.ofNat quote.char.toNat] :=
    encodeChar_ascii (by cases quote <;> decide)
  rw [encodeChars_append, byteLength, List.getElem?_append_right le_rfl, Nat.sub_self,
    encodeChars_cons, hquote]
  rfl

/-- Text without quotes is printed. -/
theorem redactFrom_plain (redacted : List Char) (text : Plain) :
    redactFrom redacted text.chars = some (redacted ++ text.chars) := by
  rw [redactFrom, findChar_eq_none text.bare]

/-- What one pass of the loop does: the text before the first quote is printed, and the marker;
where the segment ends decides the rest. -/
theorem redactFrom_quote (redacted : List Char) (text : Plain) (quote : Quote) (tail : List Char) :
    redactFrom redacted (text.chars ++ quote.char :: tail) =
      match closingQuote tail quote.char with
      | none => some (redacted ++ text.chars ++ redactedMarker)
      | some close =>
          (sliceFrom (text.chars ++ quote.char :: tail)
            (byteLength text.chars + 1 + close + 1)).bind
            (redactFrom (redacted ++ text.chars ++ redactedMarker)) := by
  have hfind := findChar_append text.bare quote.isQuote_char tail
  have hchar : Char.ofUInt8 (UInt8.ofNat quote.char.toNat) = quote.char := by
    cases quote <;> decide
  have hbody : sliceFrom (text.chars ++ quote.char :: tail) (byteLength text.chars + 1) =
      some tail := by
    have h := sliceFrom_append (text.chars ++ [quote.char]) tail
    rwa [List.append_assoc, byteLength_append, byteLength_cons, quote.utf8Size_char] at h
  rw [redactFrom, hfind]
  simp only [sliceTo_append, getElem?_quote, hbody, hchar, Option.bind_eq_bind, Option.bind_some]
  cases closingQuote tail quote.char with
  | none => rfl
  | some close =>
      simp only
      split <;> simp_all

/-- **A segment is replaced by the marker.** -/
theorem redactFrom_segment (redacted : List Char) (text : Plain) (segment : Segment)
    (rest : List Char) :
    redactFrom redacted (text.chars ++ segment.render ++ rest) =
      redactFrom (redacted ++ text.chars ++ redactedMarker) rest := by
  obtain ⟨quote, body, hbody⟩ := segment
  have hrender : text.chars ++ Segment.render ⟨quote, body, hbody⟩ ++ rest =
      text.chars ++ quote.char :: (body ++ quote.char :: rest) := by
    simp [Segment.render]
  have hslice := sliceFrom_append (text.chars ++ quote.char :: (body ++ [quote.char])) rest
  have hlength : byteLength (text.chars ++ quote.char :: (body ++ [quote.char])) =
      byteLength text.chars + 1 + byteLength body + 1 := by
    simp only [byteLength_append, byteLength_cons, byteLength_nil, quote.utf8Size_char]
    omega
  have hchars : text.chars ++ quote.char :: (body ++ [quote.char]) ++ rest =
      text.chars ++ quote.char :: (body ++ quote.char :: rest) := by simp
  rw [hlength, hchars] at hslice
  rw [hrender, redactFrom_quote, closingQuote_of_body hbody]
  simp only [hslice, Option.bind_some]

/-- **Nothing after a quote that is never closed is printed.** -/
theorem redactFrom_unclosed (redacted : List Char) (text : Plain) {quote : Quote}
    {tail : List Char} (h : quote.Unclosed tail) :
    redactFrom redacted (text.chars ++ quote.char :: tail) =
      some (redacted ++ text.chars ++ redactedMarker) := by
  rw [redactFrom_quote, closingQuote_of_unclosed h]

/-- The loop over the segments of a message, whatever comes after them. -/
theorem redactFrom_pieces (pieces : List (Plain × Segment)) (redacted rest : List Char) :
    redactFrom redacted (pieces.flatMap (fun piece => piece.1.chars ++ piece.2.render) ++ rest) =
      redactFrom
        (redacted ++ (pieces.map Prod.fst).flatMap fun text => text.chars ++ redactedMarker)
        rest := by
  induction pieces generalizing redacted with
  | nil => simp
  | cons piece pieces ih =>
      rw [List.flatMap_cons, List.append_assoc, redactFrom_segment, ih]
      simp

/-- **Each segment of a message is replaced by the marker**, and the text is left as it is. -/
theorem redactQuoted_render (message : Message) :
    redactQuoted message.render = some (Message.redacted message.texts) := by
  rw [redactQuoted, Message.render, redactFrom_pieces, redactFrom_plain]
  rfl

/-- **Nothing after a quote that is never closed is printed.** -/
theorem redactQuoted_unclosed (message : Message) {quote : Quote} {tail : List Char}
    (h : quote.Unclosed tail) :
    redactQuoted (message.render ++ quote.char :: tail) =
      some (Message.redacted message.texts ++ redactedMarker) := by
  rw [redactQuoted, Message.render, List.append_assoc, redactFrom_pieces, redactFrom_unclosed _ _ h]
  rfl

/-- One more segment in front of a message. -/
theorem Message.render_cons (piece : Plain × Segment) (message : Message) :
    Message.render ⟨piece :: message.pieces, message.last⟩ =
      piece.1.chars ++ piece.2.render ++ message.render := by
  simp only [Message.render, List.flatMap_cons, List.append_assoc]

/-- **Every message** is text and segments, up to its end or up to a quote that is never closed. -/
theorem exists_message (chars : List Char) :
    ∃ message : Message, chars = message.render ∨
      ∃ quote tail, Quote.Unclosed quote tail ∧ chars = message.render ++ quote.char :: tail := by
  induction hn : chars.length using Nat.strong_induction_on generalizing chars with
  | _ n ih =>
      subst hn
      obtain hbare | ⟨before, char, after, rfl, hbefore, hchar⟩ :=
        forall_or_exists_first isQuote chars
      · exact ⟨⟨[], ⟨chars, hbare⟩⟩, .inl rfl⟩
      obtain ⟨quote, rfl⟩ := Quote.exists_eq_char hchar
      by_cases hclosed : quote.Unclosed after
      · exact ⟨⟨[], ⟨before, hbefore⟩⟩, .inr ⟨quote, after, hclosed, rfl⟩⟩
      -- The segment ends, and what is left after it is a shorter message.
      simp only [Quote.Unclosed, not_forall, not_not] at hclosed
      obtain ⟨body, rest, hbody, rfl⟩ := hclosed
      have hlt : rest.length < (before ++ quote.char :: (body ++ quote.char :: rest)).length := by
        simp only [List.length_append, List.length_cons]
        omega
      have hrender : before ++ quote.char :: (body ++ quote.char :: rest) =
          before ++ Segment.render ⟨quote, body, hbody⟩ ++ rest := by
        simp [Segment.render]
      obtain ⟨message, hmessage⟩ := ih rest.length hlt rest rfl
      refine ⟨⟨(⟨before, hbefore⟩, ⟨quote, body, hbody⟩) :: message.pieces, message.last⟩, ?_⟩
      rw [Message.render_cons, hrender]
      obtain hrest | ⟨last, tail, hlast, hrest⟩ := hmessage
      · left
        rw [← hrest]
      · right
        exact ⟨last, tail, hlast, by rw [hrest, ← List.append_assoc]⟩

/-! ### Renderings of a value -/

/-- A string in backticks. -/
def inBackticks (string : List Char) : List Char :=
  '\x60' :: (string ++ ['\x60'])

/-- Escaped texts join to an escaped text. -/
theorem Escaped.append {body body' : List Char} (h : Escaped body) (h' : Escaped body') :
    Escaped (body ++ body') := by
  induction h with
  | nil => exact h'
  | plain hquote hescape _ ih => exact .plain hquote hescape ih
  | escape char _ ih => exact .escape char ih

/-- A text without quotes and escapes is escaped. -/
theorem Escaped.of_plain {body : List Char} (h : ∀ char ∈ body, char ≠ '"' ∧ char ≠ '\\') :
    Escaped body := by
  induction body with
  | nil => exact .nil
  | cons char body ih =>
      obtain ⟨⟨hquote, hescape⟩, hbody⟩ := List.forall_mem_cons.mp h
      exact .plain hquote hescape (ih hbody)

/-- No digit is a quote or a backslash. -/
theorem digitChar_plain (n : ℕ) : Nat.digitChar n ≠ '"' ∧ Nat.digitChar n ≠ '\\' := by
  obtain hlt | hge := Nat.lt_or_ge n 16
  · have hdigits : ∀ m < 16, Nat.digitChar m ≠ '"' ∧ Nat.digitChar m ≠ '\\' := by decide
    exact hdigits n hlt
  · have hstar : Nat.digitChar n = '*' := Nat.digitChar_eq_star.mpr hge
    rw [hstar]
    decide

/-- A number is written without quotes and escapes. -/
theorem toDigitsCore_plain (base fuel n : ℕ) {digits : List Char}
    (h : ∀ char ∈ digits, char ≠ '"' ∧ char ≠ '\\') :
    ∀ char ∈ Nat.toDigitsCore base fuel n digits, char ≠ '"' ∧ char ≠ '\\' := by
  induction fuel generalizing n digits with
  | zero => exact h
  | succ fuel ih =>
      have hcons : ∀ char ∈ Nat.digitChar (n % base) :: digits, char ≠ '"' ∧ char ≠ '\\' :=
        List.forall_mem_cons.mpr ⟨digitChar_plain (n % base), h⟩
      rw [Nat.toDigitsCore]
      split
      · exact hcons
      · exact ih _ hcons

/-- `Debug` escapes every double quote and every backslash. -/
theorem escaped_escapeDebug (unprintable : Char → Bool) (char : Char) :
    Escaped (escapeDebug unprintable '"' char) := by
  have hdigits : ∀ digit ∈ Nat.toDigits 16 char.toNat, digit ≠ '"' ∧ digit ≠ '\\' :=
    toDigitsCore_plain 16 _ _ fun digit hdigit => absurd hdigit List.not_mem_nil
  rw [escapeDebug]
  split_ifs with _ _ _ _ hspecial _
  · exact .escape _ .nil
  · exact .escape _ .nil
  · exact .escape _ .nil
  · exact .escape _ .nil
  · exact .escape _ .nil
  · exact .escape _ (.plain (by decide) (by decide)
      ((Escaped.of_plain hdigits).append (.plain (by decide) (by decide) .nil)))
  · obtain ⟨hescape, hquote⟩ := not_or.mp hspecial
    exact .plain hquote hescape .nil

/-- **The `Debug` rendering of any string is a segment.** -/
theorem exists_segment_debugString (unprintable : Char → Bool) (string : List Char) :
    ∃ segment : Segment, segment.render = debugString unprintable string := by
  have hescaped : Escaped (string.flatMap (escapeDebug unprintable '"')) := by
    induction string with
    | nil => exact .nil
    | cons char string ih => exact (escaped_escapeDebug unprintable char).append ih
  exact ⟨⟨.double, _, hescaped⟩, rfl⟩

/-- So is any string without backticks, between backticks. -/
theorem exists_segment_inBackticks {string : List Char} (h : '\x60' ∉ string) :
    ∃ segment : Segment, segment.render = inBackticks string :=
  ⟨⟨.backtick, string, h⟩, rfl⟩

/-! ### Values do not reach the error -/

/-- What redaction promises. -/
structure HidesValues (redact : List Char → Option (List Char)) : Prop where
  /-- The renderings of a value are segments. -/
  renderings : (∀ unprintable string, ∃ segment : Segment,
      segment.render = debugString unprintable string) ∧
    ∀ string, '\x60' ∉ string → ∃ segment : Segment, segment.render = inBackticks string
  /-- Each segment is replaced, and the text around it is left as it is. -/
  segments : ∀ message : Message, redact message.render = some (Message.redacted message.texts)
  /-- Messages that differ only inside their segments look the same. -/
  indistinct : ∀ message message' : Message, message.texts = message'.texts →
    redact message.render = redact message'.render
  /-- No slice is off the boundaries of the text. -/
  total : ∀ chars, ∃ redacted, redact chars = some redacted
  /-- Every message is text and segments, up to its end or up to a quote that is never closed, and
  what comes after that quote is not printed. -/
  unclosed : ∀ chars, (∃ message : Message, chars = message.render) ∨
    ∃ (message : Message) (quote : Quote) (tail : List Char), quote.Unclosed tail ∧
      chars = message.render ++ quote.char :: tail ∧
      ∀ tail', quote.Unclosed tail' →
        redact (message.render ++ quote.char :: tail') =
          some (Message.redacted message.texts ++ redactedMarker)

/-- **Redaction hides the values.** -/
theorem hidesValues_redactQuoted : HidesValues redactQuoted where
  renderings := ⟨exists_segment_debugString, fun _ => exists_segment_inBackticks⟩
  segments := redactQuoted_render
  indistinct message message' h := by
    rw [redactQuoted_render, redactQuoted_render, h]
  total chars := by
    obtain ⟨message, rfl | ⟨quote, tail, hunclosed, rfl⟩⟩ := exists_message chars
    · exact ⟨_, redactQuoted_render message⟩
    · exact ⟨_, redactQuoted_unclosed message hunclosed⟩
  unclosed chars := by
    obtain ⟨message, h | ⟨quote, tail, hunclosed, h⟩⟩ := exists_message chars
    · exact .inl ⟨message, h⟩
    · exact .inr ⟨message, quote, tail, hunclosed, h, fun _ => redactQuoted_unclosed message⟩

/-- **No quoted value reaches the error for a file that does not parse.** -/
theorem parse_error_hides_values :
    HidesValues redactQuoted ∧
      ∀ (path : String) (text : List Char) (span : Option ℕ),
        (∀ chars, ∃ error, parseError path text span chars = some error) ∧
        ∀ message message' : Message, message.texts = message'.texts →
          parseError path text span message.render = parseError path text span message'.render := by
  refine ⟨hidesValues_redactQuoted, fun path text span => ⟨fun chars => ?_, ?_⟩⟩
  · obtain ⟨redacted, hredacted⟩ := hidesValues_redactQuoted.total chars
    simp only [parseError, hredacted, Option.bind_eq_bind, Option.bind_some]
    split
    · exact ⟨_, rfl⟩
    · exact ⟨_, rfl⟩
  · intro message message' h
    simp only [parseError, hidesValues_redactQuoted.indistinct message message' h]

end Volto.Config
