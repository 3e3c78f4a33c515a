import Volto.Auth.Authenticator
import Volto.Tunnel.AuthFailures

/-!
# Whom a Guess is Charged To

A refused credential is charged to the user-id it claimed, and the name travels to the failure
buckets in the form a log line carries it: made text and cut at 32 bytes. A configuration has no
user-id that is longer, so a cut name never is a configured one. But a name that is not text is
read with U+FFFD in it, and a configuration may have a user-id that contains U+FFFD.

The claim of a failure is stated here on the bytes that were claimed.

## Main results

* `boundedBytes_eq_iff`: a name without U+FFFD is the reading of its own bytes only.
* `guesses_charged_iff`: guesses are charged to the user they aimed at, step by step and over every
  run, exactly when no configured user-id contains U+FFFD.
-/

namespace Volto

open Fallible Saturating

/-! ### The users a configuration may have -/

/-- The checks of `Config::validate` on one user, after those before it. -/
def validateUser (before : List User) (user : User) : Except String Unit :=
  let name := "auth.users[" ++ toString before.length ++ "]"
  if (asBytes user.username).isEmpty then .error (name ++ ".username is empty")
  else if (asBytes user.username).contains 0x3a then
    .error (name ++ ".username contains a colon, which RFC 7617 §2 does not allow in HTTP Basic " ++
      "credentials")
  else if maxToken < (asBytes user.username).length then
    .error (name ++ ".username is " ++ toString (asBytes user.username).length ++
      " bytes, over the " ++ toString maxToken ++
      "-byte limit a user-id has to stay within to be " ++
      "told apart in the logs and in the authentication failure counters")
  else if (asBytes user.password).isEmpty then .error (name ++ ".password is empty")
  else
    match before.findIdx? fun other => other.username = user.username with
    | some first =>
        .error (name ++ ".username duplicates auth.users[" ++ toString first ++ "].username")
    | none => .ok ()

/-- The loop over the users. -/
def validateUsers (before : List User) : List User → Except String Unit
  | [] => .ok ()
  | user :: users => do
      validateUser before user
      validateUsers (before ++ [user]) users

/-- What the checks on a user are about. -/
structure ValidUser (user : User) : Prop where
  username : asBytes user.username ≠ []
  colon : 0x3a ∉ asBytes user.username
  length : (asBytes user.username).length ≤ maxToken
  password : asBytes user.password ≠ []

variable {before users : List User} {user : User}

/-- A user is valid exactly if no check of the source refuses it. -/
theorem validUser_iff :
    ValidUser user ↔ ¬(asBytes user.username).isEmpty = true ∧
      ¬(asBytes user.username).contains 0x3a = true ∧
      ¬maxToken < (asBytes user.username).length ∧ ¬(asBytes user.password).isEmpty = true := by
  rw [List.isEmpty_iff, List.isEmpty_iff, List.contains_iff_mem, not_lt]
  constructor
  · rintro ⟨husername, hcolon, hlength, hpassword⟩
    exact ⟨husername, hcolon, hlength, hpassword⟩
  · rintro ⟨husername, hcolon, hlength, hpassword⟩
    exact ⟨husername, hcolon, hlength, hpassword⟩

/-- A user is accepted exactly if it is valid and its name is new. -/
theorem validateUser_eq_ok :
    validateUser before user = .ok () ↔
      ValidUser user ∧ ∀ other ∈ before, other.username ≠ user.username := by
  have hnew : (before.findIdx? fun other => other.username = user.username) = none ↔
      ∀ other ∈ before, other.username ≠ user.username := by
    simp [List.findIdx?_eq_none_iff]
  rw [validUser_iff, ← hnew]
  simp only [validateUser, ite_error_eq_ok, and_assoc]
  rcases hfind : before.findIdx? fun other => other.username = user.username with - | first
  · rw [hfind]
    simp
  · rw [hfind]
    simp

/-- **What a configuration's users are**: each is usable, and no two have one user-id. -/
theorem validateUsers_eq_ok :
    validateUsers before users = .ok () ↔
      (∀ user ∈ users, ValidUser user) ∧ (users.map User.username).Nodup ∧
        ∀ user ∈ users, ∀ other ∈ before, other.username ≠ user.username := by
  induction users generalizing before with
  | nil => simp [validateUsers]
  | cons user users ih =>
      have hstep : validateUsers before (user :: users) = .ok () ↔
          validateUser before user = .ok () ∧ validateUsers (before ++ [user]) users = .ok () := by
        rw [validateUsers, bind_eq_ok]
        exact ⟨fun ⟨_, h⟩ => h, fun h => ⟨(), h⟩⟩
      rw [hstep, validateUser_eq_ok, ih]
      constructor
      · rintro ⟨⟨hvalid, hnew⟩, husers, hnodup, hbefore⟩
        refine ⟨List.forall_mem_cons.mpr ⟨hvalid, husers⟩, ?_, ?_⟩
        · refine List.nodup_cons.mpr ⟨fun hmem => ?_, hnodup⟩
          obtain ⟨other, hother, heq⟩ := List.mem_map.mp hmem
          exact hbefore other hother user (by simp) heq.symm
        · refine List.forall_mem_cons.mpr ⟨hnew, fun other hother earlier hearlier => ?_⟩
          exact hbefore other hother earlier (List.mem_append_left _ hearlier)
      · rintro ⟨hvalid, hnodup, hbefore⟩
        rw [List.map_cons, List.nodup_cons] at hnodup
        rw [List.forall_mem_cons] at hvalid hbefore
        refine ⟨⟨hvalid.1, hbefore.1⟩, hvalid.2, hnodup.2, fun other hother earlier hearlier => ?_⟩
        rcases List.mem_append.mp hearlier with hold | hnew
        · exact hbefore.2 other hother earlier hold
        · rw [List.mem_singleton.mp hnew]
          exact fun heq => hnodup.1 (List.mem_map.mpr ⟨other, hother, heq.symm⟩)

/-! ### The name in the log -/

variable {name : String} {username : List UInt8}

/-- A name that had to be cut is longer than any configured one. -/
theorem length_truncated (h : maxToken < username.length) :
    maxToken < (asBytes (boundedBytes username)).length := by
  have hhead : maxToken ≤ (asBytes (fromUtf8Lossy (username.take maxToken))).length := by
    have hle := length_le_encodeChars_lossyChars (username.take maxToken)
    rwa [List.length_take_of_le h.le, ← asBytes_ofList] at hle
  have hcut : 0 < (asBytes "... <truncated from ").length := by decide
  rw [boundedBytes, if_neg (not_le.mpr h), truncated]
  simp only [asBytes_append, List.length_append]
  omega

/-- **A name without U+FFFD is the reading of its own bytes only.** -/
theorem boundedBytes_eq_iff (hlength : (asBytes name).length ≤ maxToken)
    (hname : replacement ∉ name.toList) :
    boundedBytes username = name ↔ username = asBytes name := by
  constructor
  · rintro rfl
    by_cases hshort : username.length ≤ maxToken
    · rw [boundedBytes, if_pos hshort] at hname ⊢
      exact (asBytes_fromUtf8Lossy hname).symm
    · exact absurd hlength (not_le.mpr (length_truncated (not_le.mp hshort)))
  · rintro rfl
    rw [boundedBytes, if_pos hlength, fromUtf8Lossy_asBytes]

/-! ### What a guess is charged to -/

/-- What the failure buckets read of the authenticator. -/
def Authenticator.context (auth : Authenticator) (maxAuthFailures : UInt32) : AuthContext where
  auth
  maxAuthFailures

variable {auth : Authenticator} {maxAuthFailures : UInt32} {value : FieldValue}

/-- A guess at a user-id is charged to the user who has it, and to nobody's counter when none
does. -/
structure ChargedTo (auth : Authenticator) (username : List UInt8) (f f' : AuthFailures) :
    Prop where
  configured : ∀ name, (f'.configured.lookup name).getD 0 =
    if (∃ user ∈ auth.users, user.username = name) ∧ asBytes name = username then
      Saturating.add limit32 ((f.configured.lookup name).getD 0) 1
    else (f.configured.lookup name).getD 0
  unconfigured : f'.unconfigured =
    if ∃ user ∈ auth.users, asBytes user.username = username then f.unconfigured
    else Saturating.add limit32 f.unconfigured 1
  anonymous : f'.anonymous = f.anonymous

/-- What happens on a connection, one credential at a time. -/
inductive Attempt (auth : Authenticator)
  /-- A value was refused. -/
  | refused (value : FieldValue) (denied : Denied) (h : auth.check value = .error denied)
  /-- A request had no credentials. -/
  | missing
  | admitted (user : User) (h : user ∈ auth.users)

/-- The call on the failure buckets. -/
def Attempt.event : Attempt auth → AuthEvent
  | .refused _ denied _ => .failed denied.username
  | .missing => .failed none
  | .admitted user _ => .succeeded (some user.username)

/-- The bytes that a value claims to be the user-id of. -/
def claimedUsername (value : FieldValue) : Option (List UInt8) :=
  (claimed value).toOption.map Prod.fst

/-- The failures that no success has answered for, by the bytes that they claimed: a success as a
user answers for the failures with this user's own bytes, and for those that named nobody. -/
def unanswered (attempts : List (Attempt auth)) : List (Option (List UInt8)) :=
  attempts.foldl (fun claims attempt =>
    match attempt with
    | .refused value _ _ => claims ++ [claimedUsername value]
    | .missing => claims ++ [none]
    | .admitted user _ =>
        claims.filter fun claim => claim ≠ none ∧ claim ≠ asBytes user.username) []

/-- **Guesses are charged to the user they aimed at**, each one and over every run. -/
structure ChargesGuesses (auth : Authenticator) : Prop where
  step : ∀ maxAuthFailures value username password denied f, Credential value username password →
    auth.check value = .error denied →
      ChargedTo auth username f
        ((auth.context maxAuthFailures).recordAuthFailure f denied.username).2
  run : ∀ maxAuthFailures (attempts : List (Attempt auth)),
    (∀ user ∈ auth.users,
      (((auth.context maxAuthFailures).run (attempts.map Attempt.event)).configured.lookup
        user.username).getD 0 =
        min ((unanswered attempts).count (some (asBytes user.username))) limit32) ∧
    ((auth.context maxAuthFailures).run (attempts.map Attempt.event)).unconfigured =
      min ((unanswered attempts).countP fun claim =>
        claim.any fun username =>
          auth.users.all fun user => asBytes user.username ≠ username) limit32

/-- A configured name is the reading of its own bytes only. -/
def Authenticator.TellsApart (auth : Authenticator) : Prop :=
  ∀ user ∈ auth.users, ∀ username : List UInt8,
    boundedBytes username = user.username ↔ username = asBytes user.username

/-- Users that are told apart are charged each for their own guesses. -/
theorem chargedTo_charge (h : auth.TellsApart) (maxAuthFailures : UInt32) (username : List UInt8)
    (f : AuthFailures) :
    ChargedTo auth username f
      ((auth.context maxAuthFailures).charge f (some (boundedBytes username))) := by
  rw [AuthContext.charge]
  split_ifs with hconfigured
  · obtain ⟨user, hmem, hname⟩ := Authenticator.isConfigured_iff.mp hconfigured
    have hbytes : asBytes user.username = username := ((h user hmem username).mp hname.symm).symm
    exact {
      configured := by
        intro name
        by_cases heq : name = boundedBytes username
        · subst heq
          rw [AList.lookup_insert, Option.getD_some, if_pos ⟨⟨user, hmem, hname⟩, hname ▸ hbytes⟩]
        · have hother :
              ¬((∃ user ∈ auth.users, user.username = name) ∧ asBytes name = username) := by
            rintro ⟨-, hsame⟩
            exact heq ((asBytes_inj.mp (hsame.trans hbytes.symm)).trans hname)
          rw [AList.lookup_insert_ne heq, if_neg hother]
      unconfigured := (if_pos ⟨user, hmem, hbytes⟩).symm
      anonymous := rfl }
  · have hnobody : ¬∃ user ∈ auth.users, asBytes user.username = username := by
      rintro ⟨user, hmem, hbytes⟩
      have hname := (h user hmem username).mpr hbytes.symm
      exact hconfigured (Authenticator.isConfigured_iff.mpr ⟨user, hmem, hname.symm⟩)
    exact {
      configured := by
        intro name
        refine (if_neg ?_).symm
        rintro ⟨⟨user, hmem, rfl⟩, hbytes⟩
        exact hnobody ⟨user, hmem, hbytes⟩
      unconfigured := (if_neg hnobody).symm
      anonymous := rfl }

/-- A refusal names what its value claimed. -/
theorem username_of_check {denied : Denied} (h : auth.check value = .error denied) :
    denied.username = (claimedUsername value).map boundedBytes := by
  rcases names_of_check h with ⟨username, password, hcredential, hname⟩ | ⟨hnone, hname⟩
  · rw [hname, claimedUsername, claimed_eq_ok.mpr hcredential]
    rfl
  · rw [hname, claimedUsername]
    rcases hclaimed : claimed value with denied' | ⟨username, password⟩
    · rfl
    · exact absurd ⟨username, password, claimed_eq_ok.mp hclaimed⟩ hnone

/-! ### Over a run -/

variable {attempts : List (Attempt auth)}

/-- A failure joins the unanswered ones, a success answers for its own. -/
theorem unanswered_concat (attempts : List (Attempt auth)) (attempt : Attempt auth) :
    unanswered (attempts ++ [attempt]) =
      match attempt with
      | .refused value _ _ => unanswered attempts ++ [claimedUsername value]
      | .missing => unanswered attempts ++ [none]
      | .admitted user _ =>
          (unanswered attempts).filter fun claim =>
            claim ≠ none ∧ claim ≠ asBytes user.username := by
  rw [unanswered, List.foldl_append]
  rfl

/-- **The buckets remember the claims as they read**, and nothing else. -/
theorem outstanding_event (h : auth.TellsApart) (attempts : List (Attempt auth)) :
    outstanding (attempts.map Attempt.event) =
      (unanswered attempts).map (Option.map boundedBytes) := by
  induction attempts using List.reverseRecOn with
  | nil => rfl
  | append_singleton attempts attempt ih =>
      rw [List.map_append, List.map_singleton, unanswered_concat]
      rcases attempt with ⟨value, denied, hcheck⟩ | - | ⟨user, hmem⟩
      · rw [Attempt.event, outstanding_failed, ih, username_of_check hcheck, List.map_append]
        rfl
      · rw [Attempt.event, outstanding_failed, ih, List.map_append]
        rfl
      · rw [Attempt.event, outstanding_succeeded, ih, List.filter_map]
        congr 1
        refine List.filter_congr fun claim _ => ?_
        rcases claim with - | username
        · rfl
        · simp [stays, h user hmem username]

/-- The attempts make an authentic history. -/
theorem authentic_event (maxAuthFailures : UInt32) (attempts : List (Attempt auth)) :
    (auth.context maxAuthFailures).Authentic (attempts.map Attempt.event) := by
  intro name hmem
  obtain ⟨attempt, -, hevent⟩ := List.mem_map.mp hmem
  rcases attempt with ⟨value, denied, hcheck⟩ | - | ⟨user, huser⟩
  · cases hevent
  · cases hevent
  · cases hevent
    exact Authenticator.isConfigured_iff.mpr ⟨user, huser, rfl⟩

/-- Users that are told apart are charged for every guess. -/
theorem chargesGuesses_of_tellsApart (h : auth.TellsApart) : ChargesGuesses auth where
  step maxAuthFailures value username password denied f hcredential hcheck := by
    have hname : denied.username = some (boundedBytes username) := by
      rw [username_of_check hcheck, claimedUsername, claimed_eq_ok.mpr hcredential]
      rfl
    rw [AuthContext.recordAuthFailure, hname]
    exact chargedTo_charge h maxAuthFailures username f
  run maxAuthFailures attempts := by
    have hcounts := AuthContext.counts_run (authentic_event maxAuthFailures attempts)
    rw [outstanding_event h] at hcounts
    constructor
    · intro user hmem
      rw [hcounts.configured user.username (Authenticator.isConfigured_iff.mpr ⟨user, hmem, rfl⟩),
        List.count, List.countP_map]
      congr 1
      refine List.countP_congr fun claim _ => ?_
      rcases claim with - | username
      · simp
      · simp [h user hmem username]
    · rw [hcounts.unconfigured, List.countP_map]
      congr 1
      refine List.countP_congr fun claim _ => ?_
      rcases claim with - | username
      · simp
      · have hnobody : (auth.context maxAuthFailures).auth.isConfigured (boundedBytes username) =
            true ↔ ∃ user ∈ auth.users, asBytes user.username = username := by
          rw [Authenticator.isConfigured_iff]
          refine exists_congr fun user => and_congr_right fun hmem => ?_
          rw [eq_comm, h user hmem username, eq_comm]
        simp [← Bool.not_eq_true, hnobody]

/-! ### A name that reads like a user's -/

/-- Bytes that are no text and read like this text, with U+FFFD in it: its first U+FFFD is
`0xff`. -/
theorem exists_lookalike (h : replacement ∈ name.toList) :
    ∃ username, fromUtf8Lossy username = name ∧ username.length < (asBytes name).length ∧
      ∀ byte ∈ username, byte = 0xff ∨ byte ∈ asBytes name := by
  obtain ⟨front, back, hchars⟩ := List.append_of_mem h
  have hname : asBytes name =
      encodeChars front ++ (String.utf8EncodeChar replacement ++ encodeChars back) := by
    rw [asBytes_eq, hchars, encodeChars_append, encodeChars_cons]
  refine ⟨encodeChars front ++ 0xff :: encodeChars back, ?_, ?_, ?_⟩
  · have hback := lossyChars_encodeChars_append back []
    rw [List.append_nil, lossyChars_nil, List.append_nil] at hback
    rw [fromUtf8Lossy, lossyChars_encodeChars_append, lossyChars_ff_cons, hback, ← hchars,
      String.ofList_toList]
  · have hthree : (String.utf8EncodeChar replacement).length = 3 := by decide
    rw [hname]
    simp only [List.length_append, List.length_cons]
    omega
  · intro byte hmem
    rw [hname]
    simp only [List.mem_append, List.mem_cons] at hmem ⊢
    rcases hmem with hfront | rfl | hback
    · exact .inr (.inl hfront)
    · exact .inl rfl
    · exact .inr (.inr (.inr hback))

/-- **A guess that reads like a user is charged to this user**, whose user-id it is not. -/
theorem not_chargedTo_lookalike (maxAuthFailures : UInt32) (value : FieldValue)
    (hmem : user ∈ auth.users) (hreads : boundedBytes username = user.username)
    (hnot : ∀ other : String, asBytes other ≠ username) (hcolon : 0x3a ∉ username)
    (hvalue : value.bytes = basicValue username []) :
    auth.check value = .error (.rejected user.username) ∧
      ¬ChargedTo auth username .default
        ((auth.context maxAuthFailures).recordAuthFailure .default (some user.username)).2 := by
  constructor
  · have hclaimed := claimed_eq_ok.mpr (credential_basicValue hcolon hvalue)
    have hverify : auth.verify username [] = none := by
      rw [Option.eq_none_iff_forall_ne_some]
      intro name hname
      obtain ⟨other, -, -, hbytes, -⟩ := verify_eq_some.mp hname
      exact hnot _ hbytes
    rw [Authenticator.check, hclaimed, ok_bind, ← hreads]
    exact congrArg (okOr · _) hverify
  · intro h
    have hconfigured : (auth.context maxAuthFailures).auth.isConfigured user.username = true :=
      Authenticator.isConfigured_iff.mpr ⟨user, hmem, rfl⟩
    have hnobody : ¬∃ other ∈ auth.users, asBytes other.username = username := by
      rintro ⟨other, -, hbytes⟩
      exact hnot other.username hbytes
    have hcount := h.unconfigured
    rw [if_neg hnobody, AuthContext.recordAuthFailure, AuthContext.charge,
      if_pos hconfigured] at hcount
    replace hcount : (0 : ℕ) = Saturating.add limit32 0 1 := hcount
    exact absurd hcount (by decide)

/-- A user whose name has a replacement character is charged for another's guess. -/
theorem not_chargesGuesses (hmem : user ∈ auth.users) (hvalid : ValidUser user)
    (h : replacement ∈ user.username.toList) : ¬ChargesGuesses auth := by
  intro hcharges
  obtain ⟨username, hreads, hlength, hbytes⟩ := exists_lookalike h
  have hshort : username.length ≤ maxToken := hlength.le.trans hvalid.length
  have hcolon : 0x3a ∉ username := by
    intro hmem'
    rcases hbytes _ hmem' with heq | hname
    · exact absurd heq (by decide)
    · exact hvalid.colon hname
  have hnot : ∀ other : String, asBytes other ≠ username := by
    rintro other rfl
    rw [fromUtf8Lossy_asBytes] at hreads
    rw [hreads] at hlength
    exact lt_irrefl _ hlength
  have hbounded : boundedBytes username = user.username := by
    rw [boundedBytes, if_pos hshort, hreads]
  obtain ⟨hcheck, hcharged⟩ := not_chargedTo_lookalike 0
    ⟨basicValue username [], isFieldValue_basicValue username []⟩ hmem hbounded hnot hcolon rfl
  exact hcharged
    (hcharges.step 0 _ username [] _ .default (credential_basicValue hcolon rfl) hcheck)

/-- **A guess is charged to the user it aimed at and to nobody else** exactly when no configured
user-id contains U+FFFD. -/
theorem guesses_charged_iff (auth : Authenticator) (h : validateUsers [] auth.users = .ok ()) :
    ChargesGuesses auth ↔ ∀ user ∈ auth.users, replacement ∉ user.username.toList := by
  obtain ⟨hvalid, -, -⟩ := validateUsers_eq_ok.mp h
  constructor
  · intro hcharges user hmem hname
    exact not_chargesGuesses hmem (hvalid user hmem) hname hcharges
  · intro hnames
    refine chargesGuesses_of_tellsApart fun user hmem username => ?_
    exact boundedBytes_eq_iff (hvalid user hmem).length (hnames user hmem)

/-- A configuration with one plain user charges every guess as it says. -/
theorem guesses_charged_iff_alice :
    validateUsers [] [⟨"alice", "secret"⟩] = .ok () ∧
      ChargesGuesses ⟨[⟨"alice", "secret"⟩]⟩ :=
  ⟨by decide, (guesses_charged_iff ⟨[⟨"alice", "secret"⟩]⟩ (by decide)).mpr (by decide)⟩

/-- **The user-id `a` and U+FFFD is a valid one**, and a guess at the bytes `61 ff`, which nobody
has, is charged to it. -/
theorem lookalike_charged_to_user :
    validateUsers [] [⟨"a\uFFFD", "secret"⟩] = .ok () ∧
      ∃ value : FieldValue, value.bytes = basicValue [0x61, 0xff] [] ∧
        Credential value [0x61, 0xff] [] ∧ asBytes "a\uFFFD" ≠ [0x61, 0xff] ∧
        Authenticator.check ⟨[⟨"a\uFFFD", "secret"⟩]⟩ value = .error (.rejected "a\uFFFD") ∧
        ¬ChargesGuesses ⟨[⟨"a\uFFFD", "secret"⟩]⟩ := by
  have hmem : (⟨"a\uFFFD", "secret"⟩ : User) ∈
      (⟨[⟨"a\uFFFD", "secret"⟩]⟩ : Authenticator).users := by simp
  have hchars : lossyChars [0x61, 0xff] = ['a', replacement] := by
    have h := lossyChars_encodeChars_append ['a'] [0xff]
    rwa [lossyChars_ff_cons, lossyChars_nil] at h
  have hreads : boundedBytes [0x61, 0xff] = "a\uFFFD" := by
    rw [boundedBytes, if_pos (by decide), fromUtf8Lossy, hchars]
    decide
  have hnot : ∀ other : String, asBytes other ≠ [0x61, 0xff] := by
    intro other heq
    have hother := fromUtf8Lossy_asBytes other
    rw [heq, fromUtf8Lossy, hchars] at hother
    rw [← hother] at heq
    exact absurd heq (by decide)
  obtain ⟨hcheck, -⟩ := not_chargedTo_lookalike 0
    ⟨_, isFieldValue_basicValue [0x61, 0xff] []⟩ hmem hreads hnot (by decide) rfl
  exact ⟨by decide, _, rfl, credential_basicValue (by decide) rfl, hnot _, hcheck,
    not_chargesGuesses hmem ⟨by decide, by decide, by decide, by decide⟩ (by decide)⟩

end Volto
