import Mathlib.Data.List.Forall2
import Volto.Auth.Base64
import Volto.H3.Message
import Volto.Lib.Fallible
import Volto.Lib.Splitting
import Volto.Logfmt

/-!
# Basic Authentication

`auth.rs`: the credentials of a request against the configured users. A value is split at its
first space, decoded, and split at the first colon, and both parts are compared with those of
every user. Every value that is tried and refused is one refusal, which is what the failure budget
counts.

`Credential` says what a value is when it is well formed, without any of the three passes.

## Main results

* `check_eq_ok`, `names_of_check`: what one value is worth.
* `charged_le`: what a request can be charged at most.
* `authentication_is_exact`: who gets in, and what a request that does not is charged.
-/

namespace Volto

open Splitting Fallible

/-- A configured user. -/
structure User where
  username : String
  password : String
deriving DecidableEq, Repr

/-- Checks request credentials against the configured users. -/
structure Authenticator where
  users : List User
deriving DecidableEq, Repr

/-- Why a request's credentials were not accepted. -/
inductive Denied
  | missing
  | malformed (reason : String)
  | rejected (username : String)
deriving DecidableEq, Repr

/-- The user-id the client claimed, when it sent a parseable one. -/
def Denied.username : Denied → Option String
  | .rejected username => some username
  | _ => none

/-- Every refusal one request's credentials drew, in the order they were tried. -/
structure Denials where
  reported : Denied
  others : List Denied
deriving DecidableEq, Repr

namespace Denials

/-- One refusal, with no others behind it. -/
def ofDenied (denied : Denied) : Denials :=
  ⟨denied, []⟩

/-- Records a refusal after the first. -/
def push (denials : Denials) (denied : Denied) : Denials :=
  { denials with others := denials.others ++ [denied] }

/-- The user-id each refused value claimed. -/
def claims (denials : Denials) : List (Option String) :=
  denials.reported.username :: denials.others.map Denied.username

/-- How many authentication failures this request is charged. -/
def charged (denials : Denials) : ℕ :=
  1 + denials.others.length

/-- A request is charged one failure for each user-id that was claimed. -/
theorem charged_eq (denials : Denials) : denials.charged = denials.claims.length := by
  rw [charged, claims, List.length_cons, List.length_map, Nat.add_comm]

end Denials

/-- The two fields credentials are accepted in, in the order they are tried. -/
def credentialFields : List (List UInt8) :=
  [ascii "proxy-authorization", ascii "authorization"]

/-- The most credential field values one request may carry. -/
def maxCredentialValues : ℕ := credentialFields.length

/-- Every credentials field value, in the order they are tried. -/
def credentials (fields : Fields) : List FieldValue :=
  credentialFields.flatMap fun name => fields.getAll name

/-- How many credential field values a request carries. -/
def credentialValues (fields : Fields) : ℕ :=
  (credentials fields).length

/-- The field of a 407. -/
def challengeFields : Fields :=
  Fields.append [] (ascii "proxy-authenticate") ⟨ascii "Basic realm=\"masque\"", by decide⟩

/-- Strips the `Basic` scheme, returning the base64 token. -/
def basicToken (value : List UInt8) : Except Denied (List UInt8) :=
  match splitOnce 0x20 value with
  | none => .error (.malformed "credentials have no auth scheme")
  | some (scheme, token) =>
      if eqIgnoreAsciiCase scheme (ascii "basic") then .ok (token.dropWhile (· == 0x20))
      else .error (.malformed "auth scheme is not Basic")

/-- The user-id and the password of a value: what `check` does before it looks them up. -/
def claimed (value : FieldValue) : Except Denied (List UInt8 × List UInt8) := do
  let value ← okOr (fromUtf8 value.bytes) (.malformed "credentials are not valid UTF-8")
  let token ← basicToken value
  let decoded ← okOr (decodeBase64 token) (.malformed "credentials are not valid base64")
  okOr (splitOnce 0x3a decoded) (.malformed "credentials have no user-id/password colon")

namespace Authenticator

/-- Whether no credentials are required at all. -/
def isDisabled (auth : Authenticator) : Bool :=
  auth.users.isEmpty

/-- Whether a user-id is one of the configured ones. -/
def isConfigured (auth : Authenticator) (username : String) : Bool :=
  auth.users.foldl (fun configured user =>
    configured || asBytes user.username == asBytes username) false

/-- Looks a user-id and a password up, over every configured user whatever happens. -/
def verify (auth : Authenticator) (username password : List UInt8) : Option String :=
  auth.users.foldl (fun matched user =>
    if (asBytes user.username == username) && (asBytes user.password == password) then
      some user.username
    else matched) none

/-- Validates one credentials field value. -/
def check (auth : Authenticator) (value : FieldValue) : Except Denied String := do
  let (username, password) ← claimed value
  okOr (auth.verify username password) (.rejected (boundedBytes username))

/-- The loop over the values: the first that is accepted ends it. -/
def tryValues (auth : Authenticator) (denials : Option Denials) :
    List FieldValue → Except Denials (Option String)
  | [] => .error (denials.getD (.ofDenied .missing))
  | value :: values =>
      match auth.check value with
      | .ok username => .ok (some username)
      | .error reason =>
          auth.tryValues (some (denials.elim (.ofDenied reason) (·.push reason))) values

/-- Authenticates a request's headers. -/
def authenticate (auth : Authenticator) (fields : Fields) : Except Denials (Option String) :=
  if auth.isDisabled then .ok none else auth.tryValues none (credentials fields)

end Authenticator

/-! ### What a value is worth -/

/-- **A well-formed credential**: text, the scheme `Basic` in any case, one or more spaces, and a
token that spells a user-id and a password with the first colon between them. -/
def Credential (value : FieldValue) (username password : List UInt8) : Prop :=
  ∃ scheme spaces token, (fromUtf8 value.bytes).isSome = true ∧
    value.bytes = scheme ++ List.replicate (spaces + 1) 0x20 ++ token ∧ token.head? ≠ some 0x20 ∧
    eqIgnoreAsciiCase scheme (ascii "basic") = true ∧
    Base64.Decodes token (username ++ 0x3a :: password) ∧ 0x3a ∉ username

/-- The value is one that lets the user in. -/
def Admits (value : FieldValue) (user : User) : Prop :=
  Credential value (asBytes user.username) (asBytes user.password)

variable {auth : Authenticator} {value : FieldValue} {username password : List UInt8}

/-- The comparison of `is_configured`, byte by byte and without an early exit, is that of the
names. -/
theorem Authenticator.isConfigured_iff {name : String} :
    auth.isConfigured name = true ↔ ∃ user ∈ auth.users, user.username = name := by
  obtain ⟨users⟩ := auth
  rw [Authenticator.isConfigured]
  induction users using List.reverseRecOn with
  | nil => simp
  | append_singleton users user ih =>
      rw [List.foldl_append, List.foldl_cons, List.foldl_nil, Bool.or_eq_true, ih, beq_iff_eq,
        asBytes_inj]
      simp [or_and_right, exists_or]

/-- Text is what is valid UTF-8, unchanged. -/
theorem fromUtf8_eq_some {bytes text : List UInt8} :
    fromUtf8 bytes = some text ↔ (fromUtf8 bytes).isSome = true ∧ text = bytes := by
  rw [fromUtf8]
  split_ifs with hvalid
  · simp [eq_comm]
  · simp

/-- A scheme that is `Basic` up to case has no space in it. -/
theorem space_not_mem_scheme {scheme : List UInt8}
    (h : eqIgnoreAsciiCase scheme (ascii "basic") = true) : (0x20 : UInt8) ∉ scheme := by
  intro hmem
  have hlower := List.mem_map_of_mem (f := toAsciiLowercase) hmem
  rw [eq_of_beq h] at hlower
  exact absurd hlower (by decide)

/-- The spaces in front of a token are dropped. -/
theorem dropWhile_spaces {token : List UInt8} (spaces : ℕ) (h : token.head? ≠ some 0x20) :
    (List.replicate spaces 0x20 ++ token).dropWhile (· == 0x20) = token := by
  induction spaces with
  | zero =>
      rcases token with - | ⟨byte, token⟩
      · rfl
      · refine List.dropWhile_cons_of_neg ?_
        simpa using h
  | succ spaces ih =>
      rw [List.replicate_succ, List.cons_append, List.dropWhile_cons_of_pos (by decide), ih]

/-- **The scheme and the token of a value.** -/
theorem basicToken_eq_ok {text token : List UInt8} :
    basicToken text = .ok token ↔ ∃ scheme spaces,
      text = scheme ++ List.replicate (spaces + 1) 0x20 ++ token ∧ token.head? ≠ some 0x20 ∧
        eqIgnoreAsciiCase scheme (ascii "basic") = true := by
  rw [basicToken]
  constructor
  · intro h
    split at h
    · cases h
    · next scheme rest hsplit =>
        split_ifs at h with hscheme
        obtain rfl := Except.ok.inj h
        obtain ⟨rfl, -⟩ := splitOnce_eq_some.mp hsplit
        have hspaces : rest.takeWhile (· == 0x20) =
            List.replicate (rest.takeWhile (· == 0x20)).length 0x20 :=
          List.eq_replicate_iff.mpr ⟨rfl, fun byte hmem =>
            eq_of_beq (List.all_eq_true.mp List.all_takeWhile byte hmem)⟩
        refine ⟨scheme, (rest.takeWhile (· == 0x20)).length, ?_, ?_, hscheme⟩
        · rw [List.replicate_succ, ← hspaces, List.append_assoc, List.cons_append,
            List.takeWhile_append_dropWhile]
        · intro hhead
          have hnot := List.head?_dropWhile_not (· == (0x20 : UInt8)) rest
          rw [hhead] at hnot
          exact Bool.noConfusion hnot
  · rintro ⟨scheme, spaces, rfl, htoken, hscheme⟩
    have hsplit : splitOnce 0x20 (scheme ++ List.replicate (spaces + 1) 0x20 ++ token) =
        some (scheme, List.replicate spaces 0x20 ++ token) := by
      rw [List.replicate_succ, List.append_assoc, List.cons_append]
      exact splitOnce_append (space_not_mem_scheme hscheme)
    simp only [hsplit, hscheme, dropWhile_spaces spaces htoken, if_true]

/-- A refusal that names nobody. -/
def Denied.IsMalformed (denied : Denied) : Prop :=
  ∃ reason, denied = .malformed reason

/-- A credential without a token is malformed. -/
theorem basicToken_failsIn (text : List UInt8) : FailsIn Denied.IsMalformed (basicToken text) := by
  rw [basicToken]
  split
  · exact .error ⟨_, rfl⟩
  · split_ifs
    · exact .ok _
    · exact .error ⟨_, rfl⟩

/-- **What a value claims is its credential**, when it is well formed. -/
theorem claimed_eq_ok :
    claimed value = .ok (username, password) ↔ Credential value username password := by
  simp only [claimed, bind_eq_ok, okOr_eq_ok, fromUtf8_eq_some, basicToken_eq_ok,
    decodeBase64_eq_some, splitOnce_eq_some]
  constructor
  · rintro ⟨_, ⟨htext, rfl⟩, token, ⟨scheme, spaces, hvalue, htoken, hscheme⟩, _, hdecodes, rfl,
      hcolon⟩
    exact ⟨scheme, spaces, token, htext, hvalue, htoken, hscheme, hdecodes, hcolon⟩
  · rintro ⟨scheme, spaces, token, htext, hvalue, htoken, hscheme, hdecodes, hcolon⟩
    exact ⟨_, ⟨htext, rfl⟩, token, ⟨scheme, spaces, hvalue, htoken, hscheme⟩, _, hdecodes, rfl,
      hcolon⟩

/-- **Any other value is malformed.** -/
theorem claimed_failsIn (value : FieldValue) : FailsIn Denied.IsMalformed (claimed value) := by
  refine .bind (.okOr ⟨_, rfl⟩ _) fun text _ => ?_
  refine .bind (basicToken_failsIn text) fun token _ => ?_
  exact .bind (.okOr ⟨_, rfl⟩ _) fun decoded _ => .okOr ⟨_, rfl⟩ _

/-- **The pair is looked up as a whole**: the name of one user never passes with the password of
another. -/
theorem verify_eq_some {name : String} :
    auth.verify username password = some name ↔ ∃ user ∈ auth.users,
      user.username = name ∧ asBytes user.username = username ∧
        asBytes user.password = password := by
  obtain ⟨users⟩ := auth
  rw [Authenticator.verify]
  induction users using List.reverseRecOn with
  | nil => simp
  | append_singleton users user ih =>
      rw [List.foldl_append, List.foldl_cons, List.foldl_nil]
      split_ifs with hhit
      · rw [Bool.and_eq_true, beq_iff_eq, beq_iff_eq] at hhit
        constructor
        · intro h
          exact ⟨user, by simp, Option.some.inj h, hhit⟩
        · rintro ⟨other, -, rfl, hname, -⟩
          rw [asBytes_inj.mp (hname.trans hhit.1.symm)]
      · rw [ih]
        constructor
        · rintro ⟨other, hmem, hother⟩
          exact ⟨other, List.mem_append_left _ hmem, hother⟩
        · rintro ⟨other, hmem, hother⟩
          rcases List.mem_append.mp hmem with hold | hnew
          · exact ⟨other, hold, hother⟩
          · rw [List.mem_singleton] at hnew
            subst hnew
            simp [hother.2] at hhit

/-- **A value lets a user in** exactly when it is a credential of that user's. -/
theorem check_eq_ok {name : String} :
    auth.check value = .ok name ↔
      ∃ user ∈ auth.users, user.username = name ∧ Admits value user := by
  rw [Authenticator.check, bind_eq_ok]
  constructor
  · rintro ⟨⟨username, password⟩, hclaimed, hverify⟩
    obtain ⟨user, hmem, hname, rfl, rfl⟩ := verify_eq_some.mp (okOr_eq_ok.mp hverify)
    exact ⟨user, hmem, hname, claimed_eq_ok.mp hclaimed⟩
  · rintro ⟨user, hmem, hname, hadmits⟩
    refine ⟨_, claimed_eq_ok.mpr hadmits, okOr_eq_ok.mpr ?_⟩
    exact verify_eq_some.mpr ⟨user, hmem, hname, rfl, rfl⟩

/-- Whom a refused value names: the user-id it claimed, bounded, or nobody when it was not well
formed. -/
def Names (value : FieldValue) (name : Option String) : Prop :=
  (∃ username password, Credential value username password ∧ name = some (boundedBytes username)) ∨
    (¬∃ username password, Credential value username password) ∧ name = none

/-- **A refusal names the user-id that its value claimed.** -/
theorem names_of_check {denied : Denied} (h : auth.check value = .error denied) :
    Names value denied.username := by
  rw [Authenticator.check] at h
  rcases hclaimed : claimed value with denied' | ⟨username, password⟩
  · rw [hclaimed, error_bind] at h
    obtain ⟨reason, hreason⟩ := claimed_failsIn value denied' hclaimed
    rw [← Except.error.inj h, hreason]
    refine .inr ⟨?_, rfl⟩
    rintro ⟨username, password, hcredential⟩
    cases hclaimed.symm.trans (claimed_eq_ok.mpr hcredential)
  · rw [hclaimed] at h
    replace h : okOr (auth.verify username password) (.rejected (boundedBytes username)) =
        .error denied := h
    refine .inl ⟨username, password, claimed_eq_ok.mp hclaimed, ?_⟩
    rcases hverify : auth.verify username password with - | name
    · rw [hverify] at h
      rw [← Except.error.inj h]
      rfl
    · rw [hverify] at h
      cases h

/-! ### The values of a request -/

/-- The refusals of a loop that started with some. -/
def collect (denials : Option Denials) (reasons : List Denied) : Denials :=
  (reasons.foldl (fun denials reason => some (denials.elim (.ofDenied reason) (·.push reason)))
    denials).getD (.ofDenied .missing)

/-- Further refusals are put behind the first. -/
theorem collect_some (reported : Denied) (others reasons : List Denied) :
    collect (some ⟨reported, others⟩) reasons = ⟨reported, others ++ reasons⟩ := by
  induction reasons generalizing others with
  | nil =>
      rw [List.append_nil]
      rfl
  | cons reason reasons ih =>
      rw [← List.singleton_append, ← List.append_assoc, ← ih]
      rfl

/-- The name of the first value that lets somebody in. -/
def firstAdmitted (auth : Authenticator) (values : List FieldValue) : Option String :=
  values.findSome? fun value => (auth.check value).toOption

/-- The values are tried up to the first that is admitted. -/
theorem tryValues_of_some {values : List FieldValue} {name : String}
    (h : firstAdmitted auth values = some name) (denials : Option Denials) :
    auth.tryValues denials values = .ok (some name) := by
  induction values generalizing denials with
  | nil => cases h
  | cons value values ih =>
      rw [firstAdmitted, List.findSome?_cons] at h
      rw [Authenticator.tryValues]
      rcases hcheck : auth.check value with reason | accepted
      · rw [hcheck] at h
        exact ih h _
      · rw [hcheck] at h
        obtain rfl : accepted = name := Option.some.inj h
        rfl

/-- Where no value is admitted, each is refused for a reason of its own. -/
theorem tryValues_of_none {values : List FieldValue} (h : firstAdmitted auth values = none)
    (denials : Option Denials) :
    ∃ reasons, List.Forall₂ (fun value reason => auth.check value = .error reason) values reasons ∧
      auth.tryValues denials values = .error (collect denials reasons) := by
  induction values generalizing denials with
  | nil => exact ⟨[], .nil, rfl⟩
  | cons value values ih =>
      rw [firstAdmitted, List.findSome?_cons] at h
      rw [Authenticator.tryValues]
      rcases hcheck : auth.check value with reason | accepted
      · rw [hcheck] at h
        obtain ⟨reasons, hreasons, htry⟩ :=
          ih h (some (denials.elim (.ofDenied reason) (·.push reason)))
        exact ⟨reason :: reasons, .cons hcheck hreasons, htry⟩
      · rw [hcheck] at h
        cases h

/-- Every symbol of a credential's token is a visible character. -/
theorem encode_isVisible {bytes : List UInt8} {byte : UInt8} (h : byte ∈ Base64.encode bytes) :
    0x21 ≤ byte ∧ byte ≤ 0x7e := by
  obtain ⟨sextets, padding, hencode, -, hlt, -⟩ := Base64.exists_sextets_encode bytes
  have hsymbol : ∀ s < 64, 0x21 ≤ Base64.symbol s ∧ Base64.symbol s ≤ 0x7e := by decide +kernel
  rw [hencode, List.mem_append] at h
  rcases h with hmem | hmem
  · obtain ⟨s, hs, rfl⟩ := List.mem_map.mp hmem
    exact hsymbol s (hlt s hs)
  · rw [List.eq_of_mem_replicate hmem]
    decide

/-- What a client sends for a user-id and a password. -/
def basicValue (username password : List UInt8) : List UInt8 :=
  ascii "Basic " ++ Base64.encode (username ++ 0x3a :: password)

/-- A credential is made of printable ASCII. -/
theorem basicValue_isVisible {byte : UInt8} (h : byte ∈ basicValue username password) :
    0x20 ≤ byte ∧ byte ≤ 0x7e := by
  rcases List.mem_append.mp h with hscheme | htoken
  · have hall : (ascii "Basic ").all (fun byte => 0x20 ≤ byte ∧ byte ≤ 0x7e) = true := by decide
    simpa using List.all_eq_true.mp hall byte hscheme
  · obtain ⟨hlow, hhigh⟩ := encode_isVisible htoken
    exact ⟨UInt8.le_trans (by decide) hlow, hhigh⟩

/-- A credential is a legal field value. -/
theorem isFieldValue_basicValue (username password : List UInt8) :
    isFieldValue (basicValue username password) = true := by
  refine List.all_eq_true.mpr fun byte hbyte => ?_
  obtain ⟨hlow, hhigh⟩ := basicValue_isVisible hbyte
  by_cases hspace : byte = 0x20
  · rw [hspace]
    decide
  · have hvisible : 0x21 ≤ byte := by
      rw [UInt8.le_iff_toNat_le] at hlow ⊢
      have hne : byte.toNat ≠ 0x20 := fun heq => hspace (UInt8.toNat_inj.mp heq)
      exact Nat.lt_of_le_of_ne hlow (Ne.symm hne)
    simp [hvisible, hhigh]

/-- **What a client sends is a credential** for its user-id and password. -/
theorem credential_basicValue (hcolon : 0x3a ∉ username)
    (hvalue : value.bytes = basicValue username password) : Credential value username password := by
  have htext : fromUtf8 value.bytes = some value.bytes := by
    refine fromUtf8_of_ascii fun byte hmem => ?_
    rw [hvalue] at hmem
    exact UInt8.lt_of_le_of_lt (basicValue_isVisible hmem).2 (by decide)
  refine ⟨ascii "Basic", 0, _, ?_, ?_, ?_, by decide, Base64.decodes_encode (by simp), hcolon⟩
  · rw [htext]
    rfl
  · rw [hvalue]
    rfl
  · intro hhead
    have hvisible := encode_isVisible (List.mem_of_mem_head? hhead)
    exact absurd hvisible.1 (by decide)

/-! ### Who gets in -/

/-- **Authentication is exact**: the configured pairs pass and nothing else does, and every value
that was refused is charged once. -/
structure Exact (auth : Authenticator) (fields : Fields) : Prop where
  /-- The values that are tried, in their order. -/
  tried : credentials fields = fields.getAll (ascii "proxy-authorization") ++
    fields.getAll (ascii "authorization")
  /-- The first value that admits a user decides. -/
  accepts : ∀ name, auth.authenticate fields = .ok (some name) ↔
    ∃ before value after, credentials fields = before ++ value :: after ∧
      (∃ user ∈ auth.users, user.username = name ∧ Admits value user) ∧
      ∀ earlier ∈ before, ∀ user ∈ auth.users, ¬Admits earlier user
  /-- Otherwise each value is one refusal, which names whom the value claimed to be. -/
  refuses : auth.users ≠ [] →
    (∀ value ∈ credentials fields, ∀ user ∈ auth.users, ¬Admits value user) →
    ∃ denials, auth.authenticate fields = .error denials ∧
      denials.charged = denials.claims.length ∧
      (credentials fields = [] → denials = .ofDenied .missing) ∧
      (credentials fields ≠ [] → List.Forall₂ Names (credentials fields) denials.claims)
  /-- The credential of a user without a colon in the name is accepted, under both names. -/
  own : ∀ user ∈ auth.users, 0x3a ∉ asBytes user.username →
    ∃ value, FieldValue.parse (basicValue (asBytes user.username) (asBytes user.password)) =
        some value ∧
      ∀ name ∈ credentialFields, auth.authenticate [(name, value)] = .ok (some user.username)

/-- A check admits under the name it gives. -/
theorem toOption_eq_some {name : String} :
    (auth.check value).toOption = some name ↔ auth.check value = .ok name := by
  rcases auth.check value with reason | accepted
  · simp [Except.toOption]
  · simp [Except.toOption]

/-- A check refuses exactly what admits no user. -/
theorem toOption_eq_none :
    (auth.check value).toOption = none ↔ ∀ user ∈ auth.users, ¬Admits value user := by
  rw [Option.eq_none_iff_forall_ne_some]
  constructor
  · intro h user hmem hadmits
    exact h _ (toOption_eq_some.mpr (check_eq_ok.mpr ⟨user, hmem, rfl, hadmits⟩))
  · intro h name hname
    obtain ⟨user, hmem, -, hadmits⟩ := check_eq_ok.mp (toOption_eq_some.mp hname)
    exact h user hmem hadmits

/-- The first admitted value admits a user, and none before it does. -/
theorem firstAdmitted_eq_some {values : List FieldValue} {name : String} :
    firstAdmitted auth values = some name ↔
      ∃ before value after, values = before ++ value :: after ∧
        (∃ user ∈ auth.users, user.username = name ∧ Admits value user) ∧
        ∀ earlier ∈ before, ∀ user ∈ auth.users, ¬Admits earlier user := by
  simp only [firstAdmitted, List.findSome?_eq_some_iff, toOption_eq_some, toOption_eq_none,
    check_eq_ok]

/-- **Authentication names a user exactly if a value of the request admits that user.** -/
theorem authenticate_eq_ok {fields : Fields} {name : String} :
    auth.authenticate fields = .ok (some name) ↔
      firstAdmitted auth (credentials fields) = some name := by
  rw [Authenticator.authenticate]
  split_ifs with hdisabled
  · rw [Authenticator.isDisabled, List.isEmpty_iff] at hdisabled
    rw [firstAdmitted_eq_some, hdisabled]
    simp
  · constructor
    · intro h
      rcases hfirst : firstAdmitted auth (credentials fields) with - | accepted
      · obtain ⟨reasons, -, herror⟩ := tryValues_of_none hfirst none
        cases herror.symm.trans h
      · have hok := tryValues_of_some hfirst none
        rw [h] at hok
        exact (Except.ok.inj hok).symm
    · intro h
      exact tryValues_of_some h none

/-- **The refusals of a request name whom its values claimed to be**, one for each value. -/
theorem forall₂_claims {values : List FieldValue} {reasons : List Denied}
    (h : List.Forall₂ (fun value reason => auth.check value = .error reason) values reasons)
    (hne : values ≠ []) : List.Forall₂ Names values (collect none reasons).claims := by
  have hclaims : (collect none reasons).claims = reasons.map Denied.username := by
    rcases h with - | ⟨-, -⟩
    · exact absurd rfl hne
    · exact congrArg Denials.claims (collect_some _ [] _)
  rw [hclaims, List.forall₂_map_right_iff]
  exact h.imp fun value reason hcheck => names_of_check hcheck

/-- **A request is charged two failures at most** when it carries no more values than it may. -/
theorem charged_le {fields : Fields} {denials : Denials}
    (h : auth.authenticate fields = .error denials)
    (hvalues : credentialValues fields ≤ maxCredentialValues) :
    denials.charged ≤ maxCredentialValues := by
  rw [Authenticator.authenticate] at h
  split_ifs at h
  rcases hfirst : firstAdmitted auth (credentials fields) with - | name
  · obtain ⟨reasons, hreasons, htry⟩ := tryValues_of_none hfirst none
    rw [h, Except.error.injEq] at htry
    rw [credentialValues, hreasons.length_eq] at hvalues
    obtain - | ⟨reported, others⟩ := reasons
    · rw [htry]
      decide
    · have hcollect : collect none (reported :: others) = ⟨reported, others⟩ :=
        collect_some reported [] others
      rw [htry, hcollect, Denials.charged, Nat.add_comm]
      exact hvalues
  · rw [tryValues_of_some hfirst] at h
    cases h

/-- The one credential value of a request. -/
theorem credentials_singleton {name : List UInt8} (h : name ∈ credentialFields) :
    credentials [(name, value)] = [value] := by
  rw [credentialFields, List.mem_pair] at h
  have hproxy : eqIgnoreAsciiCase (ascii "proxy-authorization") (ascii "authorization") = false :=
    rfl
  have hauth : eqIgnoreAsciiCase (ascii "authorization") (ascii "proxy-authorization") = false :=
    rfl
  have hself (name : List UInt8) : eqIgnoreAsciiCase name name = true := beq_self_eq_true _
  rcases h with rfl | rfl
  · simp [credentials, credentialFields, Fields.getAll, hproxy, hself]
  · simp [credentials, credentialFields, Fields.getAll, hauth, hself]

/-- **Authentication accepts exactly the configured pairs**, and charges each refusal once. -/
theorem authentication_is_exact (auth : Authenticator) (fields : Fields) : Exact auth fields where
  tried := by simp [credentials, credentialFields]
  accepts name := by rw [authenticate_eq_ok, firstAdmitted_eq_some]
  refuses husers hnone := by
    have hfirst : firstAdmitted auth (credentials fields) = none :=
      List.findSome?_eq_none_iff.mpr fun value hmem => toOption_eq_none.mpr (hnone value hmem)
    obtain ⟨reasons, hreasons, herror⟩ := tryValues_of_none hfirst none
    refine ⟨collect none reasons, ?_, ?_, ?_, ?_⟩
    · rw [Authenticator.authenticate, if_neg, herror]
      simpa [Authenticator.isDisabled] using husers
    · exact Denials.charged_eq _
    · intro hempty
      rw [hempty] at hreasons
      cases hreasons
      rfl
    · intro hne
      exact forall₂_claims hreasons hne
  own user hmem hcolon := by
    have hvalid := isFieldValue_basicValue (asBytes user.username) (asBytes user.password)
    refine ⟨⟨_, hvalid⟩, FieldValue.parse_eq_some.mpr ⟨hvalid, rfl⟩, fun name hname => ?_⟩
    rw [authenticate_eq_ok, credentials_singleton hname, firstAdmitted_eq_some]
    exact ⟨[], _, [], rfl, ⟨user, hmem, rfl, credential_basicValue hcolon rfl⟩, by simp⟩

end Volto
