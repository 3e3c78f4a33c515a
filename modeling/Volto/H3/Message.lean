import Mathlib.Data.List.Basic
import Volto.Bytes

/-!
# Requests and Their Field Lines

The message types of `h3/message.rs`: a method, the field lines in the order they arrived, and
the syntax of names and values. A `FieldValue` carries the proof that every octet of it may
appear in a field value, which in the source only its constructors ensure.

## Main results

* `token_eq_some`, `fieldName_eq_some`, `FieldValue.parse_eq_some`: what each parser accepts.
* `Fields.get_of_lower`: a lookup that folds case is an exact one when the names are lowercase.
-/

namespace Volto

/-! ### Syntax -/

/-- A visible ASCII character. -/
def isVchar (byte : UInt8) : Bool :=
  0x21 ≤ byte && byte ≤ 0x7e

/-- Whether `byte` may appear in a token: a letter, a digit, or one of these marks. -/
def isTchar (byte : UInt8) : Bool :=
  isAsciiAlphanumeric byte || (ascii "!#$%&'*+-.^_`|~").contains byte

/-- One token, if `bytes` are one. -/
def token (bytes : List UInt8) : Option (List UInt8) :=
  if bytes.isEmpty || !bytes.all isTchar then none else fromUtf8 bytes

/-- The name of one field line: a token without an uppercase letter. -/
def fieldName (bytes : List UInt8) : Option (List UInt8) :=
  (token bytes).filter fun name => !name.any isAsciiUppercase

/-- Whether every octet of `value` may appear in a field value. -/
def isFieldValue (value : List UInt8) : Bool :=
  value.all fun byte =>
    (0x21 ≤ byte && byte ≤ 0x7e) || 0x80 ≤ byte || byte == 0x20 || byte == 0x09

/-- One or more token characters. -/
def IsToken (bytes : List UInt8) : Prop :=
  bytes ≠ [] ∧ ∀ byte ∈ bytes, isTchar byte = true

/-- A token without an uppercase letter. -/
def IsFieldName (bytes : List UInt8) : Prop :=
  IsToken bytes ∧ ∀ byte ∈ bytes, isAsciiUppercase byte = false

/-- A visible character is ASCII. -/
theorem lt_of_isVchar {byte : UInt8} (h : isVchar byte = true) : byte < 0x80 := by
  have hall : ∀ byte : UInt8, isVchar byte = true → byte < 0x80 :=
    forall_byte (by decide +kernel)
  exact hall byte h

/-- A token is made of visible characters. -/
theorem isVchar_of_isTchar {byte : UInt8} (h : isTchar byte = true) : isVchar byte = true := by
  have hall : ∀ byte : UInt8, isTchar byte = true → isVchar byte = true :=
    forall_byte (by decide +kernel)
  exact hall byte h

/-- **Visible characters are text**: the conversions of the parsers never fail. -/
theorem fromUtf8_of_isVchar {bytes : List UInt8} (h : ∀ byte ∈ bytes, isVchar byte = true) :
    fromUtf8 bytes = some bytes :=
  fromUtf8_of_ascii fun byte hmem => lt_of_isVchar (h byte hmem)

/-- What `token` accepts. -/
theorem token_eq_some {bytes name : List UInt8} :
    token bytes = some name ↔ IsToken bytes ∧ name = bytes := by
  rw [token]
  split_ifs with h
  · rw [Bool.or_eq_true, Bool.not_eq_true', List.isEmpty_iff, ← Bool.not_eq_true,
      List.all_eq_true] at h
    constructor
    · intro h'
      cases h'
    · rintro ⟨⟨hne, hall⟩, -⟩
      exact (h.elim hne fun hnot => hnot hall).elim
  · rw [Bool.or_eq_true, Bool.not_eq_true', List.isEmpty_iff, ← Bool.not_eq_true,
      List.all_eq_true, not_or, not_not] at h
    rw [fromUtf8_of_isVchar fun byte hmem => isVchar_of_isTchar (h.2 byte hmem)]
    constructor
    · intro h'
      cases h'
      exact ⟨h, rfl⟩
    · rintro ⟨-, rfl⟩
      rfl

/-- What `fieldName` accepts. -/
theorem fieldName_eq_some {bytes name : List UInt8} :
    fieldName bytes = some name ↔ IsFieldName bytes ∧ name = bytes := by
  rw [fieldName, Option.filter_eq_some_iff, token_eq_some]
  constructor
  · rintro ⟨⟨htoken, rfl⟩, hlower⟩
    rw [Bool.not_eq_true', List.any_eq_false] at hlower
    exact ⟨⟨htoken, fun byte hmem => Bool.not_eq_true _ ▸ hlower byte hmem⟩, rfl⟩
  · rintro ⟨⟨htoken, hlower⟩, rfl⟩
    refine ⟨⟨htoken, rfl⟩, ?_⟩
    rw [Bool.not_eq_true', List.any_eq_false]
    intro byte hmem
    rw [hlower byte hmem]
    exact Bool.false_ne_true

/-! ### Statuses -/

/-- Three digits, the first of which is not zero. -/
def isStatus (bytes : List UInt8) : Bool :=
  bytes.length = 3 && bytes.head? ≠ some 0x30 && bytes.all isAsciiDigit

/-- A response status, as `:status` carries it. -/
structure Status where
  digits : List UInt8
  valid : isStatus digits = true
deriving DecidableEq

namespace Status

/-- `200 OK`. -/
def ok : Status := ⟨ascii "200", by decide⟩

/-- `400 Bad Request`. -/
def badRequest : Status := ⟨ascii "400", by decide⟩

/-- `403 Forbidden`. -/
def forbidden : Status := ⟨ascii "403", by decide⟩

/-- `407 Proxy Authentication Required`. -/
def proxyAuthenticationRequired : Status := ⟨ascii "407", by decide⟩

/-- `431 Request Header Fields Too Large`. -/
def requestHeaderFieldsTooLarge : Status := ⟨ascii "431", by decide⟩

/-- `500 Internal Server Error`. -/
def internalServerError : Status := ⟨ascii "500", by decide⟩

/-- `501 Not Implemented`. -/
def notImplemented : Status := ⟨ascii "501", by decide⟩

/-- `502 Bad Gateway`. -/
def badGateway : Status := ⟨ascii "502", by decide⟩

/-- `503 Service Unavailable`. -/
def serviceUnavailable : Status := ⟨ascii "503", by decide⟩

/-- `504 Gateway Timeout`. -/
def gatewayTimeout : Status := ⟨ascii "504", by decide⟩

end Status

/-! ### Methods -/

/-- A request method. CONNECT is the only one this proxy serves. -/
inductive Method
  | connect
  /-- Any other method, as the token that arrived. -/
  | other (token : List UInt8)
deriving DecidableEq, Repr

namespace Method

/-- Reads a `:method` value, or `none` if it is not a token. -/
def parse (bytes : List UInt8) : Option Method :=
  (token bytes).map fun name => if name = ascii "CONNECT" then connect else other name

/-- The method as it appears on the wire. -/
def asStr : Method → List UInt8
  | connect => ascii "CONNECT"
  | other token => token

/-- What `parse` accepts. -/
theorem parse_eq_some {bytes : List UInt8} {method : Method} :
    parse bytes = some method ↔
      IsToken bytes ∧ method = if bytes = ascii "CONNECT" then connect else other bytes := by
  rw [parse, Option.map_eq_some_iff]
  constructor
  · rintro ⟨name, htoken, rfl⟩
    obtain ⟨hbytes, rfl⟩ := token_eq_some.mp htoken
    exact ⟨hbytes, rfl⟩
  · rintro ⟨hbytes, rfl⟩
    exact ⟨bytes, token_eq_some.mpr ⟨hbytes, rfl⟩, rfl⟩

/-- A parsed method is written as it arrived. -/
theorem asStr_of_parse {bytes : List UInt8} {method : Method} (h : parse bytes = some method) :
    method.asStr = bytes := by
  obtain ⟨-, rfl⟩ := parse_eq_some.mp h
  split_ifs with hconnect
  · exact hconnect.symm
  · rfl

end Method

/-! ### Field lines -/

/-- The value of one field line. -/
structure FieldValue where
  bytes : List UInt8
  valid : isFieldValue bytes = true
deriving DecidableEq

namespace FieldValue

/-- Reads a value that arrived from a peer. -/
def parse (value : List UInt8) : Option FieldValue :=
  if h : isFieldValue value = true then some ⟨value, h⟩ else none

/-- What `parse` accepts. -/
theorem parse_eq_some {value : List UInt8} {parsed : FieldValue} :
    parse value = some parsed ↔ isFieldValue value = true ∧ parsed.bytes = value := by
  rw [parse]
  constructor
  · intro h
    split_ifs at h with hvalid
    cases h
    exact ⟨hvalid, rfl⟩
  · rintro ⟨hvalid, rfl⟩
    rw [dif_pos hvalid]

end FieldValue

/-- The field lines of a message, in the order they arrived. -/
abbrev Fields := List (List UInt8 × FieldValue)

namespace Fields

/-- Adds a field, keeping every value a repeated name already had. -/
def append (fields : Fields) (name : List UInt8) (value : FieldValue) : Fields :=
  fields ++ [(name, value)]

/-- The first value of `name`, whatever the case of its letters. -/
def get (fields : Fields) (name : List UInt8) : Option FieldValue :=
  (fields.find? fun line => eqIgnoreAsciiCase line.1 name).map Prod.snd

/-- Every value of `name`, in the order they arrived. -/
def getAll (fields : Fields) (name : List UInt8) : List FieldValue :=
  (fields.filter fun line => eqIgnoreAsciiCase line.1 name).map Prod.snd

/-- Whether any field is named `name`. -/
def contains (fields : Fields) (name : List UInt8) : Bool :=
  (get fields name).isSome

/-- **A lookup that folds case is an exact one** when every name is lowercase. -/
theorem get_of_lower {fields : Fields} {name : List UInt8}
    (hfields : ∀ field ∈ fields, ∀ byte ∈ field.1, isAsciiUppercase byte = false)
    (hname : ∀ byte ∈ name, isAsciiUppercase byte = false) :
    get fields name = (fields.find? fun line => line.1 = name).map Prod.snd := by
  rw [get]
  congr 1
  induction fields with
  | nil => rfl
  | cons field fields ih =>
      have hfold : eqIgnoreAsciiCase field.1 name = decide (field.1 = name) := by
        rw [Bool.eq_iff_iff, decide_eq_true_iff]
        exact eqIgnoreAsciiCase_of_lower (hfields field (List.mem_cons_self ..)) hname
      rw [List.find?_cons, List.find?_cons, hfold,
        ih fun field hmem => hfields field (List.mem_cons_of_mem _ hmem)]

end Fields

/-! ### Requests -/

/-- A request: the pseudo-headers, then the fields that followed them. -/
structure Request where
  method : Method
  scheme : Option (List UInt8)
  authority : Option (List UInt8)
  path : Option (List UInt8)
  query : Option (List UInt8)
  protocol : Option (List UInt8)
  fields : Fields
deriving DecidableEq

end Volto
