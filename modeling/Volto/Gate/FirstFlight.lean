import Volto.Bytes
import Volto.Lib.BigEndian

/-!
# The Name a First Flight Asks For

`Names` and `first_flight` of `gate.rs`: the hosts a handshake may name, and what the start of
a CRYPTO stream says about the name being asked for. TLS structures are length-prefixed all the
way down, so every read is checked against what is left, and the one judgement to be made with
care is between a message that is not all here and one that names nobody: only the former is
`truncated`.

A `str` is its bytes, and a big-endian length is a natural number.

## Main results

* `firstFlight_of_hello`: a whole ClientHello is judged by its body, whatever follows it.
-/

namespace Volto

namespace Gate

/-! ### The expected names -/

/-- `name` without its trailing root dot. -/
def rootRelative (name : List UInt8) : List UInt8 :=
  if name.getLast? = some 0x2e then name.dropLast else name

/-- Lowercased, with one trailing root dot removed. -/
def normalise (name : List UInt8) : List UInt8 :=
  (rootRelative name).map toAsciiLowercase

/-- The hosts a handshake may name, normalised. -/
structure Names where
  names : List (List UInt8)
deriving DecidableEq, Repr

namespace Names

/-- Normalises what the configuration file said. -/
def new (configured : List (List UInt8)) : Names :=
  ⟨configured.map normalise⟩

/-- Whether `name` is one of them. -/
def accepts (expected : Names) (name : List UInt8) : Bool :=
  expected.names.any fun held => eqIgnoreAsciiCase held (rootRelative name)

end Names

/-! ### Reading TLS structures -/

/-- Takes `count` bytes off the front. -/
def take (count : ℕ) (bytes : List UInt8) : Option (List UInt8 × List UInt8) :=
  if bytes.length < count then none else some (bytes.take count, bytes.drop count)

/-- Reads a big-endian number of `width` bytes. -/
def takeNumber (width : ℕ) (bytes : List UInt8) : Option (ℕ × List UInt8) := do
  let (head, bytes) ← take width bytes
  some (BigEndian.ofBytes 0 head, bytes)

/-- Reads a vector with a length prefix of `width` bytes. -/
def takeVector (width : ℕ) (bytes : List UInt8) : Option (List UInt8 × List UInt8) := do
  let (length, bytes) ← takeNumber width bytes
  take length bytes

/-- What is taken and what is left make up what was there. -/
theorem take_eq_some {count : ℕ} {bytes head rest : List UInt8}
    (h : take count bytes = some (head, rest)) :
    bytes = head ++ rest ∧ head.length = count := by
  rw [take] at h
  split_ifs at h with hshort
  cases h
  exact ⟨(List.take_append_drop count bytes).symm, List.length_take_of_le (by omega)⟩

/-- Exactly as many bytes as are asked for are taken, whatever follows them. -/
theorem take_append (head rest : List UInt8) :
    take head.length (head ++ rest) = some (head, rest) := by
  rw [take, if_neg (by rw [List.length_append]; omega), List.take_left, List.drop_left]

/-- A number takes as many bytes as it is wide. -/
theorem takeNumber_length {width value : ℕ} {bytes rest : List UInt8}
    (h : takeNumber width bytes = some (value, rest)) : rest.length + width = bytes.length := by
  obtain ⟨⟨head, rest'⟩, htake, heq⟩ := Option.bind_eq_some_iff.mp h
  cases heq
  obtain ⟨rfl, hhead⟩ := take_eq_some htake
  rw [List.length_append, hhead, Nat.add_comm]

/-- A vector takes at least the bytes of its length. -/
theorem takeVector_length {width : ℕ} {bytes value rest : List UInt8}
    (h : takeVector width bytes = some (value, rest)) : rest.length + width ≤ bytes.length := by
  obtain ⟨⟨length, rest'⟩, hnumber, htake⟩ := Option.bind_eq_some_iff.mp h
  obtain ⟨rfl, -⟩ := take_eq_some htake
  have := takeNumber_length hnumber
  rw [List.length_append] at this
  omega

/-! ### The ClientHello -/

/-- The `client_hello` handshake message type. -/
def clientHello : UInt8 := 1

/-- The `server_name` extension type. -/
def serverNameExtension : ℕ := 0

/-- The `host_name` name type of a `server_name` entry. -/
def hostNameType : ℕ := 0

/-- The first `host_name` entry of a server name list. -/
def findHostName : List UInt8 → Option (List UInt8)
  | [] => none
  | first :: tail =>
      match _hname : takeVector 2 tail with
      | none => none
      | some (name, rest) => if first.toNat = hostNameType then some name else findHostName rest
termination_by list => list.length
decreasing_by
  have := takeVector_length _hname
  simp only [List.length_cons]
  omega

/-- One entry of a server name list. -/
theorem findHostName_cons {first : UInt8} {tail name rest : List UInt8}
    (h : takeVector 2 tail = some (name, rest)) :
    findHostName (first :: tail) =
      if first.toNat = hostNameType then some name else findHostName rest := by
  rw [findHostName]
  split <;> rename_i hname
  · rw [hname] at h
    cases h
  · rw [hname] at h
    cases h
    rfl

/-- The first `host_name` entry of a `server_name` extension body. -/
def hostName (extension : List UInt8) : Option (List UInt8) := do
  let (list, _) ← takeVector 2 extension
  findHostName list

/-- The first `server_name` extension of an extensions block, and the name in it. -/
def findServerName (extensions : List UInt8) : Option (List UInt8) :=
  if extensions = [] then
    none
  else
    match _hkind : takeNumber 2 extensions with
    | none => none
    | some (kind, rest) =>
        match _hdata : takeVector 2 rest with
        | none => none
        | some (data, rest) =>
            if kind = serverNameExtension then hostName data else findServerName rest
termination_by extensions.length
decreasing_by
  have := takeNumber_length _hkind
  have := takeVector_length _hdata
  omega

/-- One extension of an extensions block. -/
theorem findServerName_of_extension {extensions rest rest' data : List UInt8} {kind : ℕ}
    (hkind : takeNumber 2 extensions = some (kind, rest))
    (hdata : takeVector 2 rest = some (data, rest')) :
    findServerName extensions =
      if kind = serverNameExtension then hostName data else findServerName rest' := by
  have hne : extensions ≠ [] := by
    rintro rfl
    cases hkind
  rw [findServerName, if_neg hne]
  split <;> rename_i hkind'
  · rw [hkind'] at hkind
    cases hkind
  · rw [hkind'] at hkind
    cases hkind
    split <;> rename_i hdata'
    · rw [hdata'] at hdata
      cases hdata
    · rw [hdata'] at hdata
      cases hdata
      rfl

/-- The `host_name` of a complete ClientHello body, if it has one. -/
def serverName (body : List UInt8) : Option (List UInt8) := do
  let (_, body) ← take 2 body
  let (_, body) ← take 32 body
  let (_, body) ← takeVector 1 body
  let (_, body) ← takeVector 2 body
  let (_, body) ← takeVector 1 body
  let (extensions, _) ← takeVector 2 body
  findServerName extensions

/-- What a first flight's CRYPTO bytes said about the name being asked for. -/
inductive FirstFlight
  /-- The ClientHello is not all here yet. -/
  | truncated
  /-- The first handshake message is something other than a ClientHello. -/
  | notAClientHello
  /-- A whole ClientHello with no `server_name` extension. -/
  | anonymous
  /-- The host name it asked for, as it arrived. -/
  | named (name : List UInt8)
deriving DecidableEq, Repr

/-- Reads the `server_name` a ClientHello carries. -/
def firstFlight : List UInt8 → FirstFlight
  | [] => .truncated
  | kind :: crypto =>
      if kind ≠ clientHello then
        .notAClientHello
      else
        match takeNumber 3 crypto with
        | none => .truncated
        | some (length, crypto) =>
            match take length crypto with
            | none => .truncated
            | some (body, _) =>
                match serverName body with
                | some name => .named name
                | none => .anonymous

/-- A ClientHello message: its type, the length of its body in three bytes, and its body. -/
def helloMessage (body : List UInt8) : List UInt8 :=
  clientHello :: BigEndian.toBytes 3 body.length ++ body

/-- **A whole ClientHello is judged by its body**, whatever follows it. -/
theorem firstFlight_of_hello {body : List UInt8} (hlength : body.length < 2 ^ 24)
    (rest : List UInt8) :
    firstFlight (helloMessage body ++ rest) =
      match serverName body with
      | some name => .named name
      | none => .anonymous := by
  have hnumber : takeNumber 3 (BigEndian.toBytes 3 body.length ++ (body ++ rest)) =
      some (body.length, body ++ rest) := by
    have htake := take_append (BigEndian.toBytes 3 body.length) (body ++ rest)
    rw [BigEndian.length_toBytes] at htake
    have hvalue : BigEndian.ofBytes 0 (BigEndian.toBytes 3 body.length) = body.length := by
      rw [BigEndian.ofBytes_toBytes, Nat.zero_mul, Nat.zero_add]
      exact Nat.mod_eq_of_lt hlength
    rw [takeNumber]
    exact Option.bind_eq_some_iff.mpr ⟨_, htake, by simp only [hvalue]⟩
  rw [helloMessage, List.cons_append, List.cons_append, List.append_assoc, firstFlight,
    if_neg (not_not.mpr rfl), hnumber]
  simp only [take_append]

/-- **What is not truncated is a whole ClientHello**, when it begins like one. -/
theorem exists_hello_of_firstFlight {stream : List UInt8} (hhead : stream.head? = some clientHello)
    (h : firstFlight stream ≠ .truncated) :
    ∃ body, body.length < 2 ^ 24 ∧ helloMessage body <+: stream := by
  cases stream with
  | nil => cases hhead
  | cons kind crypto =>
      cases hhead
      rw [firstFlight, if_neg (not_not.mpr rfl)] at h
      cases hnumber : takeNumber 3 crypto with
      | none =>
          rw [hnumber] at h
          exact (h rfl).elim
      | some r =>
          obtain ⟨length, crypto'⟩ := r
          rw [hnumber] at h
          cases htake : take length crypto' with
          | none =>
              simp only [htake] at h
              exact (h rfl).elim
          | some r =>
              obtain ⟨body, rest⟩ := r
              obtain ⟨⟨head, crypto''⟩, hhead, heq⟩ := Option.bind_eq_some_iff.mp hnumber
              cases heq
              obtain ⟨rfl, hwidth⟩ := take_eq_some hhead
              obtain ⟨rfl, hlength⟩ := take_eq_some htake
              have hbound := BigEndian.ofBytes_zero_lt head
              have hhead := BigEndian.toBytes_ofBytes head
              rw [hwidth] at hbound hhead
              refine ⟨body, hlength ▸ hbound, rest, ?_⟩
              rw [helloMessage, hlength, hhead, List.cons_append, List.cons_append,
                List.append_assoc]

end Gate

end Volto
