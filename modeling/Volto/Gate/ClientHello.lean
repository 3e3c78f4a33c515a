import Volto.Gate.FirstFlight

/-!
# Well-Formed ClientHellos

What `first_flight` answers, told from the side of the sender. A `ClientHello` is a value, with the
bounds that its length prefixes impose as fields, and `body` is how it is written. The name it asks
for is read off the value: the first `host_name` entry of its first `server_name` extension. The
answers are then about the message alone, whatever follows it, and a message that is not all there
is told by the length it declares.

## Main results

* `serverName_body`: what is read from a body is the name that was written.
* `first_flight_answers`: the answers, for every stream and every ClientHello.
-/

namespace Volto

namespace Gate

/-! ### What is written -/

/-- A vector: its length in `width` bytes, and its content. -/
def vector (width : ℕ) (content : List UInt8) : List UInt8 :=
  BigEndian.toBytes width content.length ++ content

/-- An entry of a server name list. -/
structure NameEntry where
  kind : UInt8
  name : List UInt8
  length_lt : name.length < 2 ^ 16

namespace NameEntry

/-- The bytes of a name entry. -/
def encode (entry : NameEntry) : List UInt8 :=
  entry.kind :: vector 2 entry.name

/-- Whether it is a `host_name`. -/
def isHostName (entry : NameEntry) : Bool :=
  entry.kind.toNat == hostNameType

end NameEntry

/-- An extension: `server_name` with its entries, or any other with its data. -/
inductive Extension
  | serverName (entries : List NameEntry)
      (length_lt : (vector 2 (entries.flatMap NameEntry.encode)).length < 2 ^ 16)
  | other (kind : ℕ) (data : List UInt8) (kind_lt : kind < 2 ^ 16)
      (kind_ne : kind ≠ serverNameExtension) (length_lt : data.length < 2 ^ 16)

namespace Extension

/-- The type of an extension. -/
def kind : Extension → ℕ
  | serverName _ _ => serverNameExtension
  | other kind _ _ _ _ => kind

/-- The body of an extension. -/
def data : Extension → List UInt8
  | serverName entries _ => vector 2 (entries.flatMap NameEntry.encode)
  | other _ data _ _ _ => data

/-- The bytes of an extension. -/
def encode (extension : Extension) : List UInt8 :=
  BigEndian.toBytes 2 extension.kind ++ vector 2 extension.data

/-- The entries of a `server_name` extension. -/
def entries? : Extension → Option (List NameEntry)
  | serverName entries _ => some entries
  | other _ _ _ _ _ => none

end Extension

/-- A ClientHello, with or without a block of extensions. -/
structure ClientHello where
  legacyVersion : List UInt8
  random : List UInt8
  sessionId : List UInt8
  cipherSuites : List UInt8
  compressionMethods : List UInt8
  extensions : Option (List Extension)
  length_legacyVersion : legacyVersion.length = 2
  length_random : random.length = 32
  length_sessionId : sessionId.length < 2 ^ 8
  length_cipherSuites : cipherSuites.length < 2 ^ 16
  length_compressionMethods : compressionMethods.length < 2 ^ 8
  length_extensions : ∀ list ∈ extensions, (list.flatMap Extension.encode).length < 2 ^ 16

namespace ClientHello

/-- How a ClientHello is written. -/
def body (hello : ClientHello) : List UInt8 :=
  hello.legacyVersion ++ (hello.random ++ (vector 1 hello.sessionId ++
    (vector 2 hello.cipherSuites ++ (vector 1 hello.compressionMethods ++
      hello.extensions.elim [] fun list => vector 2 (list.flatMap Extension.encode)))))

/-- The first `host_name` entry of the first `server_name` extension. -/
def hostName (hello : ClientHello) : Option (List UInt8) := do
  let entries ← (hello.extensions.getD []).findSome? Extension.entries?
  let entry ← entries.find? NameEntry.isHostName
  some entry.name

end ClientHello

/-! ### What is read back -/

/-- A number is read back off the front. -/
theorem takeNumber_append {width value : ℕ} (h : value < 256 ^ width) (rest : List UInt8) :
    takeNumber width (BigEndian.toBytes width value ++ rest) = some (value, rest) := by
  have htake := take_append (BigEndian.toBytes width value) rest
  rw [BigEndian.length_toBytes] at htake
  have hvalue : BigEndian.ofBytes 0 (BigEndian.toBytes width value) = value := by
    rw [BigEndian.ofBytes_toBytes, Nat.zero_mul, Nat.zero_add, Nat.mod_eq_of_lt h]
  rw [takeNumber]
  exact Option.bind_eq_some_iff.mpr ⟨_, htake, by simp only [hvalue]⟩

/-- A vector is read back off the front. -/
theorem takeVector_append (width : ℕ) {content : List UInt8} (h : content.length < 256 ^ width)
    (rest : List UInt8) :
    takeVector width (vector width content ++ rest) = some (content, rest) := by
  rw [takeVector, vector, List.append_assoc]
  exact Option.bind_eq_some_iff.mpr ⟨_, takeNumber_append h _, take_append content rest⟩

/-- The host name found is that of the first entry that has one. -/
theorem findHostName_encode (entries : List NameEntry) :
    findHostName (entries.flatMap NameEntry.encode) =
      (entries.find? NameEntry.isHostName).map NameEntry.name := by
  induction entries with
  | nil => rw [List.flatMap_nil, findHostName, List.find?_nil, Option.map_none]
  | cons entry entries ih =>
      rw [List.flatMap_cons, NameEntry.encode, List.cons_append,
        findHostName_cons (takeVector_append 2 entry.length_lt _), ih, List.find?_cons]
      cases hkind : entry.isHostName with
      | true => rw [if_pos (beq_iff_eq.mp hkind), Option.map_some]
      | false => rw [if_neg (beq_eq_false_iff_ne.mp hkind)]

/-- The type of an extension fits two bytes. -/
theorem Extension.kind_lt (extension : Extension) : extension.kind < 256 ^ 2 := by
  cases extension with
  | serverName => exact Nat.pow_pos (by decide)
  | other _ _ hkind => exact hkind

/-- The body of an extension fits its length. -/
theorem Extension.length_data_lt (extension : Extension) : extension.data.length < 256 ^ 2 := by
  cases extension with
  | serverName _ hlength => exact hlength
  | other _ _ _ _ hlength => exact hlength

/-- The name in the first `server_name` extension. -/
theorem findServerName_encode (extensions : List Extension) :
    findServerName (extensions.flatMap Extension.encode) =
      (extensions.findSome? Extension.entries?).bind fun entries =>
        (entries.find? NameEntry.isHostName).map NameEntry.name := by
  induction extensions with
  | nil =>
      rw [List.flatMap_nil, findServerName, if_pos rfl]
      rfl
  | cons extension extensions ih =>
      have hkind := takeNumber_append extension.kind_lt
        (vector 2 extension.data ++ extensions.flatMap Extension.encode)
      have hdata := takeVector_append 2 extension.length_data_lt
        (extensions.flatMap Extension.encode)
      rw [List.flatMap_cons, Extension.encode, List.append_assoc,
        findServerName_of_extension hkind hdata, List.findSome?_cons]
      cases extension with
      | serverName entries hlength =>
          have hlist : takeVector 2 (vector 2 (entries.flatMap NameEntry.encode)) =
              some (entries.flatMap NameEntry.encode, []) := by
            have hlt : (entries.flatMap NameEntry.encode).length < 256 ^ 2 := by
              rw [vector, List.length_append] at hlength
              omega
            simpa using takeVector_append 2 hlt []
          refine (if_pos rfl).trans ?_
          rw [Extension.data, hostName, hlist]
          exact findHostName_encode entries
      | other kind data _ hother _ => exact (if_neg hother).trans ih

/-- **What is read from a body is the name that was written.** -/
theorem serverName_body (hello : ClientHello) : serverName hello.body = hello.hostName := by
  have hversion : ∀ rest,
      take 2 (hello.legacyVersion ++ rest) = some (hello.legacyVersion, rest) := by
    intro rest
    rw [← hello.length_legacyVersion]
    exact take_append _ _
  have hrandom : ∀ rest, take 32 (hello.random ++ rest) = some (hello.random, rest) := by
    intro rest
    rw [← hello.length_random]
    exact take_append _ _
  have hsession := takeVector_append 1 hello.length_sessionId
  have hsuites := takeVector_append 2 hello.length_cipherSuites
  have hmethods := takeVector_append 1 hello.length_compressionMethods
  simp only [serverName, ClientHello.body, ClientHello.hostName, hversion, hrandom, hsession,
    hsuites, hmethods, Option.bind_eq_bind, Option.bind_some]
  cases hextensions : hello.extensions with
  | none => rfl
  | some list =>
      have hlist := takeVector_append 2 (hello.length_extensions list hextensions) []
      rw [List.append_nil] at hlist
      simp only [Option.elim_some, hlist, Option.bind_some, Option.getD_some]
      rw [findServerName_encode]
      congr 1
      funext entries
      cases entries.find? NameEntry.isHostName <;> rfl

/-! ### Messages that are not all there -/

/-- The length a stream declares for its first message, the four bytes before the body included. -/
def declaredLength (stream : List UInt8) : Option ℕ :=
  if stream.length < 4 then none else some (4 + BigEndian.ofBytes 0 ((stream.take 4).drop 1))

/-- The declared message is all there. -/
def IsWhole (stream : List UInt8) : Prop :=
  ∃ length, declaredLength stream = some length ∧ length ≤ stream.length

/-- A handshake message is four bytes longer than its body. -/
theorem length_helloMessage (body : List UInt8) :
    (helloMessage body).length = 4 + body.length := by
  rw [helloMessage, List.length_append, List.length_cons, BigEndian.length_toBytes]

/-- A handshake message declares its own length. -/
theorem declaredLength_helloMessage {body : List UInt8} (h : body.length < 2 ^ 24)
    (rest : List UInt8) : declaredLength (helloMessage body ++ rest) = some (4 + body.length) := by
  have hlong : ¬(helloMessage body ++ rest).length < 4 := by
    rw [List.length_append, length_helloMessage]
    omega
  have hbytes : ((helloMessage body ++ rest).take 4).drop 1 = BigEndian.toBytes 3 body.length := by
    have htake : take 3 (BigEndian.toBytes 3 body.length ++ (body ++ rest)) =
        some (BigEndian.toBytes 3 body.length, body ++ rest) := by
      simpa using take_append (BigEndian.toBytes 3 body.length) (body ++ rest)
    rw [helloMessage, List.cons_append, List.cons_append, List.append_assoc, List.take_succ_cons,
      List.drop_one, List.tail_cons]
    rw [take, if_neg (by rw [List.length_append, BigEndian.length_toBytes]; omega)] at htake
    exact congrArg Prod.fst (Option.some.inj htake)
  rw [declaredLength, if_neg hlong, hbytes, BigEndian.ofBytes_toBytes, Nat.zero_mul, Nat.zero_add]
  exact congrArg (fun n => some (4 + n)) (Nat.mod_eq_of_lt h)

/-- **A declared message that is all there is a whole ClientHello**, when it begins like one. -/
theorem isWhole_iff {stream : List UInt8} (hhead : stream.head? = some clientHello) :
    IsWhole stream ↔ ∃ body rest, body.length < 2 ^ 24 ∧ stream = helloMessage body ++ rest := by
  constructor
  · rintro ⟨length, hdeclared, hle⟩
    rw [declaredLength] at hdeclared
    split_ifs at hdeclared with hshort
    obtain ⟨kind, a, b, c, tail, rfl⟩ :
        ∃ kind a b c tail, stream = kind :: a :: b :: c :: tail := by
      match stream, hshort with
      | kind :: a :: b :: c :: tail, _ => exact ⟨kind, a, b, c, tail, rfl⟩
      | [], h | [_], h | [_, _], h | [_, _, _], h => simp at h
    cases hhead
    obtain rfl : 4 + BigEndian.ofBytes 0 [a, b, c] = length := Option.some.inj hdeclared
    have hlength : (tail.take (BigEndian.ofBytes 0 [a, b, c])).length =
        BigEndian.ofBytes 0 [a, b, c] := by
      refine List.length_take_of_le ?_
      simp only [List.length_cons] at hle
      omega
    refine ⟨tail.take (BigEndian.ofBytes 0 [a, b, c]), tail.drop (BigEndian.ofBytes 0 [a, b, c]),
      ?_, ?_⟩
    · have hlt : BigEndian.ofBytes 0 [a, b, c] < 256 ^ 3 := BigEndian.ofBytes_zero_lt [a, b, c]
      rw [hlength]
      exact Nat.lt_of_lt_of_eq hlt (by norm_num)
    · have hbytes : BigEndian.toBytes 3 (BigEndian.ofBytes 0 [a, b, c]) = [a, b, c] :=
        BigEndian.toBytes_ofBytes [a, b, c]
      rw [helloMessage, hlength, hbytes, List.append_assoc, List.take_append_drop]
      rfl
  · rintro ⟨body, rest, hlength, rfl⟩
    refine ⟨_, declaredLength_helloMessage hlength rest, ?_⟩
    rw [List.length_append, length_helloMessage]
    omega

/-- A whole ClientHello has an answer. -/
theorem firstFlight_helloMessage_ne {body : List UInt8} (h : body.length < 2 ^ 24)
    (rest : List UInt8) : firstFlight (helloMessage body ++ rest) ≠ .truncated := by
  rw [firstFlight_of_hello h]
  cases serverName body <;> simp

/-- **A ClientHello is unfinished exactly until all its bytes are there.** -/
theorem firstFlight_eq_truncated_iff {stream : List UInt8}
    (hhead : stream.head? = some clientHello) :
    firstFlight stream = .truncated ↔ ¬IsWhole stream := by
  rw [isWhole_iff hhead]
  constructor
  · rintro h ⟨body, rest, hlength, rfl⟩
    exact firstFlight_helloMessage_ne hlength rest h
  · intro hnot
    by_contra h
    obtain ⟨body, hlength, rest, heq⟩ := exists_hello_of_firstFlight hhead h
    exact hnot ⟨body, rest, hlength, heq.symm⟩

/-- Bytes after the declared message change nothing. -/
theorem firstFlight_take_append {stream : List UInt8} (hhead : stream.head? = some clientHello)
    {length : ℕ} (hdeclared : declaredLength stream = some length) (hle : length ≤ stream.length)
    (rest : List UInt8) : firstFlight (stream.take length ++ rest) = firstFlight stream := by
  obtain ⟨body, after, hlength, rfl⟩ := (isWhole_iff hhead).mp ⟨length, hdeclared, hle⟩
  rw [declaredLength_helloMessage hlength, Option.some.injEq, ← length_helloMessage] at hdeclared
  rw [← hdeclared, List.take_left, firstFlight_of_hello hlength, firstFlight_of_hello hlength]

/-- A strict prefix of a ClientHello is truncated. -/
theorem firstFlight_of_strict_part {body part : List UInt8} (h : body.length < 2 ^ 24)
    (hpart : part <+: helloMessage body) (hne : part ≠ helloMessage body) :
    firstFlight part = .truncated := by
  cases part with
  | nil => rfl
  | cons kind tail =>
      obtain ⟨missing, heq⟩ := hpart
      have hhead : (kind :: tail).head? = some clientHello := by
        rw [helloMessage, List.cons_append] at heq
        rw [List.head?_cons, (List.cons.inj heq).1]
      by_contra hanswer
      obtain ⟨body', hlength, rest, hwhole⟩ := exists_hello_of_firstFlight hhead hanswer
      -- the length that is declared is that of the whole message
      have hdeclared := declaredLength_helloMessage h []
      have hdeclared' := declaredLength_helloMessage hlength (rest ++ missing)
      rw [List.append_nil, ← heq, ← hwhole, List.append_assoc, hdeclared', Option.some.injEq]
        at hdeclared
      have hsum := congrArg List.length heq
      rw [← hwhole, length_helloMessage, List.length_append, List.length_append,
        length_helloMessage] at hsum
      obtain rfl : missing = [] := List.eq_nil_of_length_eq_zero (by omega)
      exact hne (by rw [← heq, List.append_nil])

/-- The length of a body fits the three bytes before it. -/
theorem ClientHello.length_body_lt (hello : ClientHello) : hello.body.length < 2 ^ 24 := by
  have hextensions : (hello.extensions.elim [] fun list =>
      vector 2 (list.flatMap Extension.encode)).length < 2 ^ 17 := by
    cases hsome : hello.extensions with
    | none => simp
    | some list =>
        have hlength := hello.length_extensions list hsome
        rw [Option.elim_some, vector, List.length_append, BigEndian.length_toBytes]
        omega
  have hversion := hello.length_legacyVersion
  have hrandom := hello.length_random
  have hsession := hello.length_sessionId
  have hsuites := hello.length_cipherSuites
  have hmethods := hello.length_compressionMethods
  simp only [body, vector, List.length_append, BigEndian.length_toBytes] at hextensions ⊢
  omega

/-- A ClientHello names nobody when it has no `server_name` extension, or its first one has no
`host_name` entry. -/
theorem ClientHello.hostName_eq_none (hello : ClientHello) :
    hello.hostName = none ↔
      (∀ extension ∈ hello.extensions.getD [], extension.entries? = none) ∨
      ∃ entries, (hello.extensions.getD []).findSome? Extension.entries? = some entries ∧
        ∀ entry ∈ entries, entry.isHostName = false := by
  rw [hostName, ← List.findSome?_eq_none_iff]
  cases (hello.extensions.getD []).findSome? Extension.entries? with
  | none => simp
  | some entries =>
      cases hfind : entries.find? NameEntry.isHostName with
      | none =>
          have hnone : ∀ entry ∈ entries, entry.isHostName = false := by
            simpa [List.find?_eq_none] using hfind
          simpa [hfind] using hnone
      | some entry =>
          have hmem := List.mem_of_find?_eq_some hfind
          have hentry : entry.isHostName = true := List.find?_some hfind
          simp only [Option.bind_eq_bind, Option.bind_some, hfind, reduceCtorEq, false_or,
            false_iff, not_exists, not_and, not_forall]
          rintro entries' heq
          cases heq
          exact ⟨entry, hmem, by simp [hentry]⟩

/-- **What a first flight is answered with**: an unfinished message is told from a nameless one,
and the name is found wherever it is. -/
theorem first_flight_answers :
    (∀ stream : List UInt8, stream.head? = some clientHello →
      (firstFlight stream = .truncated ↔ ¬IsWhole stream) ∧
      ∀ length, declaredLength stream = some length → length ≤ stream.length →
        ∀ rest, firstFlight (stream.take length ++ rest) = firstFlight stream) ∧
    (∀ (hello : ClientHello) (rest : List UInt8),
      (∀ name, firstFlight (helloMessage hello.body ++ rest) = .named name ↔
        hello.hostName = some name) ∧
      (firstFlight (helloMessage hello.body ++ rest) = .anonymous ↔
        (∀ extension ∈ hello.extensions.getD [], extension.entries? = none) ∨
        ∃ entries, (hello.extensions.getD []).findSome? Extension.entries? = some entries ∧
          ∀ entry ∈ entries, entry.isHostName = false)) ∧
    ∀ body part : List UInt8, body.length < 2 ^ 24 → part <+: helloMessage body →
      part ≠ helloMessage body → firstFlight part = .truncated := by
  refine ⟨fun stream hhead => ⟨firstFlight_eq_truncated_iff hhead, fun length hdeclared hle =>
    firstFlight_take_append hhead hdeclared hle⟩, fun hello rest => ?_, fun body part h =>
    firstFlight_of_strict_part h⟩
  rw [← hello.hostName_eq_none, firstFlight_of_hello hello.length_body_lt, serverName_body]
  cases hello.hostName <;> simp

/-- A ClientHello whose `server_name` extension comes second and has an entry of another kind
first. -/
theorem first_flight_answers_second_extension :
    let hello : ClientHello := ⟨[3, 3], List.replicate 32 7, [], [0x13, 0x01], [0],
      some [.other 10 [0, 29] (by decide) (by decide) (by decide),
        .serverName [⟨9, [], by decide⟩, ⟨0, ascii "proxy.example", by decide⟩] (by decide)],
      rfl, rfl, by decide, by decide, by decide, by decide⟩
    firstFlight (helloMessage hello.body ++ [0xff]) = .named (ascii "proxy.example") := by
  intro hello
  obtain ⟨-, hanswers, -⟩ := first_flight_answers
  exact ((hanswers hello [0xff]).1 _).mpr rfl

end Gate

end Volto
