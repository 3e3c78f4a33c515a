import Mathlib.Data.List.AList
import Mathlib.Data.List.Induction
import Volto.Auth.Authenticator
import Volto.Lib.Saturating

/-!
# Authentication Failures

The failure buckets of `tunnel/mod.rs`. A failure that names a configured user is counted in
that user's bucket, one that names anybody else in a single bucket for all of them, and one
that names nobody in a third kind; a success clears the bucket of its user and the failures
that named nobody. The cap is on the sum of the buckets.

The purpose of the buckets is stated without them: `outstanding` are the failures of a
connection's history that no success has cleared, one entry each.

## Main results

* `Counts.total`: the buckets add up to the outstanding failures.
* `auth_failures_bounded`: when the cap is reached, and what a guesser gets before it is.
-/

namespace Volto

open Saturating

/-- The authentication failures one connection has run up, in buckets. -/
structure AuthFailures where
  /-- One counter for each configured user-id a failure has named. -/
  configured : AList fun _ : String => ℕ
  /-- Failures naming a user-id nobody has. -/
  unconfigured : ℕ
  /-- Failures that named nobody. -/
  anonymous : ℕ

namespace AuthFailures

/-- A connection without failures. -/
def default : AuthFailures :=
  ⟨∅, 0, 0⟩

/-- Failures across every bucket, saturating. -/
def total (f : AuthFailures) : ℕ :=
  (f.configured.entries.map Sigma.snd ++ [f.unconfigured, f.anonymous]).foldl
    (Saturating.add limit32) 0

/-- How many counters there are. -/
def buckets (f : AuthFailures) : ℕ :=
  f.configured.keys.length + 2

end AuthFailures

/-- What the failure buckets read of their connection. -/
structure AuthContext where
  auth : Authenticator
  /-- How many failures close the connection; 0 is no bound. -/
  maxAuthFailures : UInt32
deriving DecidableEq, Repr

namespace AuthContext

/-- Counts a failure in its bucket. -/
def charge (ctx : AuthContext) (f : AuthFailures) : Option String → AuthFailures
  | some username =>
      if ctx.auth.isConfigured username then
        { f with
          configured := f.configured.insert username
            (Saturating.add limit32 ((f.configured.lookup username).getD 0) 1) }
      else
        { f with unconfigured := Saturating.add limit32 f.unconfigured 1 }
  | none => { f with anonymous := Saturating.add limit32 f.anonymous 1 }

/-- Records an authentication failure, reporting whether that was one too many. -/
def recordAuthFailure (ctx : AuthContext) (f : AuthFailures) (username : Option String) :
    Bool × AuthFailures :=
  let f := ctx.charge f username
  (decide (0 < ctx.maxAuthFailures ∧ ctx.maxAuthFailures.toNat ≤ f.total), f)

end AuthContext

/-- Clears the failures that a success answers for. -/
def AuthFailures.markAuthenticated (f : AuthFailures) (username : Option String) : AuthFailures :=
  let f := { f with anonymous := 0 }
  match username with
  | some username => { f with configured := f.configured.erase username }
  | none => f

/-- A call on the buckets of a connection: a failure that claims a user-id or none, or a success
as a user, or as nobody where no user is configured. -/
inductive AuthEvent
  | failed (username : Option String)
  | succeeded (username : Option String)
deriving DecidableEq, Repr

namespace AuthContext

/-- One call. -/
def step (ctx : AuthContext) (f : AuthFailures) : AuthEvent → AuthFailures
  | .failed username => (ctx.recordAuthFailure f username).2
  | .succeeded username => f.markAuthenticated username

/-- The buckets after a history of calls. -/
def run (ctx : AuthContext) (history : List AuthEvent) : AuthFailures :=
  history.foldl ctx.step .default

end AuthContext

/-! ### The purpose of the buckets -/

/-- Whether a success leaves a failure uncleared: one that named somebody else. -/
def stays (username claim : Option String) : Bool :=
  claim ≠ none ∧ claim ≠ username

/-- The failures that no success has cleared, by whom they named. -/
def outstanding (history : List AuthEvent) : List (Option String) :=
  history.foldl (fun claims event =>
    match event with
    | .failed username => claims ++ [username]
    | .succeeded username => claims.filter (stays username)) []

/-- A failure is outstanding behind the others. -/
@[simp] theorem outstanding_failed (history : List AuthEvent) (username : Option String) :
    outstanding (history ++ [.failed username]) = outstanding history ++ [username] := by
  simp [outstanding]

/-- A success answers for the failures that do not stay. -/
@[simp] theorem outstanding_succeeded (history : List AuthEvent) (username : Option String) :
    outstanding (history ++ [.succeeded username]) =
      (outstanding history).filter (stays username) := by
  simp [outstanding]

/-- **The buckets count the outstanding failures**, each bucket those of its own kind. -/
structure Counts (ctx : AuthContext) (f : AuthFailures) (claims : List (Option String)) :
    Prop where
  keys : ∀ username ∈ f.configured, ctx.auth.isConfigured username = true
  configured : ∀ username, ctx.auth.isConfigured username = true →
    (f.configured.lookup username).getD 0 = min (claims.count (some username)) limit32
  unconfigured : f.unconfigured =
    min (claims.countP fun claim => claim.any fun username => !ctx.auth.isConfigured username)
      limit32
  anonymous : f.anonymous = min (claims.count none) limit32

variable {ctx : AuthContext} {f : AuthFailures} {claims : List (Option String)}

/-- Nothing has been counted yet. -/
theorem counts_default (ctx : AuthContext) : Counts ctx .default [] where
  keys username h := absurd h (AList.notMem_empty username)
  configured _ _ := rfl
  unconfigured := rfl
  anonymous := rfl

/-- **A failure is counted in the bucket of its claim**, and in no other. -/
theorem Counts.failed (h : Counts ctx f claims) (claim : Option String) :
    Counts ctx (ctx.charge f claim) (claims ++ [claim]) := by
  cases claim with
  | none =>
      exact {
        keys := h.keys
        configured := fun username hconfigured => by
          simpa [AuthContext.charge] using h.configured username hconfigured
        unconfigured := by simpa [AuthContext.charge] using h.unconfigured
        anonymous := by
          rw [AuthContext.charge, List.count_append, List.count_singleton_self, h.anonymous]
          exact add_min_one _ _ }
  | some claimed =>
      rw [AuthContext.charge]
      split_ifs with hclaimed
      · exact {
          keys := by
            intro username hmem
            rcases (AList.mem_insert _).mp hmem with rfl | hold
            · exact hclaimed
            · exact h.keys username hold
          configured := by
            intro username hconfigured
            by_cases heq : username = claimed
            · subst heq
              rw [AList.lookup_insert, Option.getD_some, h.configured username hclaimed,
                List.count_append, List.count_singleton_self]
              exact add_min_one _ _
            · rw [AList.lookup_insert_ne heq, h.configured username hconfigured]
              simp [List.count_append, Ne.symm heq]
          unconfigured := by simpa [hclaimed] using h.unconfigured
          anonymous := by simpa using h.anonymous }
      · exact {
          keys := h.keys
          configured := by
            intro username hconfigured
            have hne : claimed ≠ username := by
              rintro rfl
              exact hclaimed hconfigured
            simpa [List.count_append, List.count_singleton, hne] using
              h.configured username hconfigured
          unconfigured := by
            have hone : ([some claimed].countP fun claim =>
                claim.any fun username => !ctx.auth.isConfigured username) = 1 := by
              simp [hclaimed]
            rw [List.countP_append, hone, h.unconfigured]
            exact add_min_one _ _
          anonymous := by simpa using h.anonymous }

/-! ### What a success leaves -/

/-- Nothing that named its user, or nobody. -/
theorem count_filter_stays_eq_zero {username claim : Option String}
    (h : stays username claim = false) : (claims.filter (stays username)).count claim = 0 := by
  refine List.count_eq_zero.mpr fun hmem => ?_
  rw [(List.mem_filter.mp hmem).2] at h
  cases h

/-- Everything that named nobody's account. -/
theorem countP_filter_stays {username : Option String}
    (hconfigured : ∀ name, username = some name → ctx.auth.isConfigured name = true) :
    (claims.filter (stays username)).countP
        (fun claim => claim.any fun name => !ctx.auth.isConfigured name) =
      claims.countP fun claim => claim.any fun name => !ctx.auth.isConfigured name := by
  rw [List.countP_filter]
  refine List.countP_congr fun claim _ => ?_
  cases claim with
  | none => simp
  | some name =>
      rw [Option.any_some, Bool.and_eq_true]
      refine and_iff_left_of_imp fun hname => ?_
      have hne : some name ≠ username := by
        rintro rfl
        rw [hconfigured name rfl] at hname
        cases hname
      simp [stays, hne]

/-- The buckets of the other users are left as they are. -/
theorem lookup_markAuthenticated_of_ne {username : Option String} {name : String}
    (h : username ≠ some name) :
    (f.markAuthenticated username).configured.lookup name = f.configured.lookup name := by
  cases username with
  | none => rfl
  | some username =>
      have hne : name ≠ username := by
        rintro rfl
        exact h rfl
      exact AList.lookup_erase_ne hne

/-- **A success clears the failures that named its user and those that named nobody**, and no
others. -/
theorem Counts.succeeded (h : Counts ctx f claims) {username : Option String}
    (hconfigured : ∀ name, username = some name → ctx.auth.isConfigured name = true) :
    Counts ctx (f.markAuthenticated username) (claims.filter (stays username)) where
  keys := by
    intro name hmem
    cases username with
    | none => exact h.keys name hmem
    | some username => exact h.keys name (AList.mem_erase.mp hmem).2
  configured := by
    intro name hname
    by_cases heq : username = some name
    · subst heq
      rw [count_filter_stays_eq_zero (by simp [stays])]
      simp [AuthFailures.markAuthenticated, AList.lookup_erase]
    · have hstays : stays username (some name) = true := by
        simp [stays, Ne.symm heq]
      rw [List.count_filter hstays, ← h.configured name hname, lookup_markAuthenticated_of_ne heq]
  unconfigured := by
    rw [countP_filter_stays hconfigured, ← h.unconfigured]
    cases username <;> rfl
  anonymous := by
    rw [count_filter_stays_eq_zero (by simp [stays])]
    cases username <;> rfl

/-! ### The total -/

/-- A claim is counted once for each time it is listed. -/
theorem sum_ite_eq_count (names : List String) (claimed : String) :
    (names.map fun name => if some claimed == some name then 1 else 0).sum =
      names.count claimed := by
  induction names with
  | nil => rfl
  | cons name names ih =>
      rw [List.map_cons, List.sum_cons, ih, List.count_cons, Nat.add_comm]
      by_cases heq : claimed = name
      · simp [heq]
      · simp [heq, Ne.symm heq]

/-- Each name of a list without repetitions accounts for its own claims. -/
theorem sum_count_eq_countP {names : List String} (hnodup : names.Nodup)
    (claims : List (Option String)) :
    (names.map fun name => claims.count (some name)).sum =
      claims.countP fun claim => claim.any fun name => names.contains name := by
  induction claims with
  | nil => simp
  | cons claim claims ih =>
      have hone : (names.map fun name => if claim == some name then 1 else 0).sum =
          if (claim.any fun name => names.contains name) = true then 1 else 0 := by
        cases claim with
        | none => simp
        | some claimed =>
            rw [sum_ite_eq_count]
            split_ifs with hmem
            · exact List.count_eq_one_of_mem hnodup (by simpa using hmem)
            · exact List.count_eq_zero.mpr (by simpa using hmem)
      simp only [List.count_cons, List.countP_cons, List.sum_map_add, ih, hone]

/-- A configured user whose bucket is not there has no outstanding failure. -/
theorem Counts.count_eq_zero (h : Counts ctx f claims) {username : String}
    (hconfigured : ctx.auth.isConfigured username = true) (habsent : username ∉ f.configured) :
    claims.count (some username) = 0 := by
  have hcount := h.configured username hconfigured
  rw [AList.lookup_eq_none.mpr habsent, Option.getD_none] at hcount
  have hpos : 0 < limit32 := by decide
  omega

/-- Every claim is of one kind: in a bucket of its own, of nobody's name, or of no name. -/
theorem Counts.length_eq (h : Counts ctx f claims) :
    claims.length = (f.configured.keys.map fun name => claims.count (some name)).sum +
      (claims.countP fun claim => claim.any fun username => !ctx.auth.isConfigured username) +
      claims.count none := by
  rw [sum_count_eq_countP f.configured.keys_nodup]
  have hkeys : ∀ claim ∈ claims, ∀ username, claim = some username →
      (ctx.auth.isConfigured username = true ↔ username ∈ f.configured.keys) := by
    rintro claim hmem username rfl
    constructor
    · intro hconfigured
      by_contra habsent
      exact absurd (h.count_eq_zero hconfigured habsent)
        (Nat.ne_of_gt (List.count_pos_iff.mpr hmem))
    · exact h.keys username
  clear h
  induction claims with
  | nil => rfl
  | cons claim claims ih =>
      have hrest := ih fun c hc => hkeys c (List.mem_cons_of_mem _ hc)
      rw [List.length_cons, hrest, List.countP_cons, List.countP_cons, List.count_cons]
      cases claim with
      | none =>
          simp
          omega
      | some username =>
          have hiff := hkeys _ List.mem_cons_self username rfl
          by_cases hconfigured : ctx.auth.isConfigured username = true
          · have hmem := hiff.mp hconfigured
            simp [hconfigured, hmem]
            omega
          · have hmem : username ∉ f.configured.keys := fun hmem => hconfigured (hiff.mpr hmem)
            simp [hconfigured, hmem]
            omega

/-- **The buckets add up to the outstanding failures**, as far as the limit of a counter goes. -/
theorem Counts.total (h : Counts ctx f claims) {bound : ℕ} (hbound : bound ≤ limit32) :
    bound ≤ f.total ↔ bound ≤ claims.length := by
  have hvalues : f.configured.entries.map Sigma.snd =
      (f.configured.keys.map fun name => claims.count (some name)).map (min · limit32) := by
    rw [AList.keys, List.keys, List.map_map, List.map_map]
    refine List.map_congr_left fun entry hmem => ?_
    have hlookup : f.configured.lookup entry.1 = some entry.2 := AList.mem_lookup_iff.mpr hmem
    have hcount := h.configured entry.1 (h.keys entry.1 (List.mem_keys_of_mem hmem))
    rw [hlookup, Option.getD_some] at hcount
    exact hcount
  have htotal : f.total = min ((f.configured.keys.map fun name => claims.count (some name)) ++
      [claims.countP fun claim => claim.any fun username => !ctx.auth.isConfigured username,
        claims.count none] |>.map (min · limit32)).sum limit32 := by
    rw [AuthFailures.total, foldl_add _ (Nat.zero_le _), Nat.zero_add, hvalues, h.unconfigured,
      h.anonymous, List.map_append]
    rfl
  rw [htotal, h.length_eq, Nat.le_min, and_iff_left hbound, le_sum_min_iff hbound]
  simp [Nat.add_assoc]

/-! ### Histories -/

namespace AuthContext

variable {history : List AuthEvent}

/-- Successes are as configured users. -/
def Authentic (ctx : AuthContext) (history : List AuthEvent) : Prop :=
  ∀ name, .succeeded (some name) ∈ history → ctx.auth.isConfigured name = true

/-- The beginning of an authentic history is authentic. -/
theorem Authentic.front {front rest : List AuthEvent} (h : ctx.Authentic (front ++ rest)) :
    ctx.Authentic front :=
  fun name hmem => h name (List.mem_append_left rest hmem)

/-- A run ends with its last event. -/
theorem run_concat (ctx : AuthContext) (history : List AuthEvent) (event : AuthEvent) :
    ctx.run (history ++ [event]) = ctx.step (ctx.run history) event := by
  simp [run]

/-- **After every history the buckets count what is outstanding.** -/
theorem counts_run (h : ctx.Authentic history) :
    Counts ctx (ctx.run history) (outstanding history) := by
  induction history using List.reverseRecOn with
  | nil => exact counts_default ctx
  | append_singleton history event ih =>
      have hcounts := ih h.front
      rw [run_concat]
      cases event with
      | failed claim =>
          rw [outstanding_failed]
          exact hcounts.failed claim
      | succeeded username =>
          rw [outstanding_succeeded]
          refine hcounts.succeeded fun name hname => ?_
          subst hname
          exact h name (List.mem_append_right _ List.mem_cons_self)

/-- The limit fits a `u32`. -/
theorem maxAuthFailures_le (ctx : AuthContext) : ctx.maxAuthFailures.toNat ≤ limit32 :=
  Nat.le_of_lt_succ ctx.maxAuthFailures.toNat_lt

/-- **The cap is reached exactly when that many failures are outstanding.** -/
theorem recordAuthFailure_iff (h : ctx.Authentic history) (hpos : 0 < ctx.maxAuthFailures)
    (claim : Option String) :
    (ctx.recordAuthFailure (ctx.run history) claim).1 = true ↔
      ctx.maxAuthFailures.toNat ≤ (outstanding (history ++ [.failed claim])).length := by
  have hcounts := (counts_run h).failed claim
  rw [recordAuthFailure, decide_eq_true_iff, and_iff_right hpos,
    hcounts.total ctx.maxAuthFailures_le, outstanding_failed]

/-- Whether an event is a guess at a user-id outside of a set. -/
def guesses (outside : String → Bool) : AuthEvent → Bool
  | .failed (some name) => outside name
  | _ => false

/-- A guess at a user nobody succeeds as stays outstanding. -/
theorem countP_guesses_le {outside : String → Bool}
    (h : ∀ name, .succeeded (some name) ∈ history → outside name = false) :
    history.countP (guesses outside) ≤
      (outstanding history).countP fun claim => claim.any outside := by
  induction history using List.reverseRecOn with
  | nil => exact Nat.le_refl _
  | append_singleton history event ih =>
      have hprev := ih fun name hmem => h name (List.mem_append_left _ hmem)
      rw [List.countP_append]
      cases event with
      | failed claim =>
          rw [outstanding_failed, List.countP_append]
          have hone : [AuthEvent.failed claim].countP (guesses outside) =
              [claim].countP fun claim => claim.any outside := by
            cases claim with
            | none => rfl
            | some name =>
                rw [List.countP_singleton, List.countP_singleton]
                rfl
          omega
      | succeeded username =>
          have hsame : ((outstanding history).filter (stays username)).countP
              (fun claim => claim.any outside) =
              (outstanding history).countP fun claim => claim.any outside := by
            rw [List.countP_filter]
            refine List.countP_congr fun claim _ => ?_
            rw [Bool.and_eq_true]
            refine and_iff_left_of_imp fun hany => ?_
            cases claim with
            | none => cases hany
            | some name =>
                have hne : some name ≠ username := by
                  rintro rfl
                  rw [Option.any_some, h name (List.mem_append_right _ List.mem_cons_self)] at hany
                  cases hany
                simp [stays, hne]
          rw [outstanding_succeeded, hsame]
          simpa [guesses] using hprev

/-- Before the cap is reached there are fewer failures outstanding. -/
theorem length_outstanding_lt (h : ctx.Authentic history) (hpos : 0 < ctx.maxAuthFailures)
    (hopen : ∀ front claim rest, history = front ++ .failed claim :: rest →
      (ctx.recordAuthFailure (ctx.run front) claim).1 = false) :
    (outstanding history).length < ctx.maxAuthFailures.toNat := by
  induction history using List.reverseRecOn with
  | nil => exact UInt32.lt_iff_toNat_lt.mp hpos
  | append_singleton history event ih =>
      cases event with
      | failed claim =>
          have hfalse := hopen history claim [] rfl
          have hiff := recordAuthFailure_iff h.front hpos claim
          rw [hfalse] at hiff
          simpa using hiff
      | succeeded username =>
          rw [outstanding_succeeded]
          refine (List.length_filter_le _ _).trans_lt (ih h.front ?_)
          rintro front claim rest rfl
          exact hopen front claim (rest ++ [.succeeded username]) (by simp)

/-- There are at most two counters more than users. -/
theorem buckets_le (h : ctx.Authentic history) :
    (ctx.run history).buckets ≤ ctx.auth.users.length + 2 := by
  have hsub : (ctx.run history).configured.keys ⊆ ctx.auth.users.map User.username := by
    intro name hmem
    exact List.mem_map.mpr (Authenticator.isConfigured_iff.mp ((counts_run h).keys name hmem))
  have hle := (List.subperm_of_subset (ctx.run history).configured.keys_nodup hsub).length_le
  rw [List.length_map] at hle
  rw [AuthFailures.buckets]
  omega

end AuthContext

/-- **Guessing at other users is bounded**, whatever successes are interleaved. A failure is one
too many exactly when the failures that no success has cleared reach the cap. So in a history
that ends with the first failure that is one too many, the guesses at user-ids that never
succeeded in it are at most the cap; and there are never more buckets than configured users and
two. -/
theorem auth_failures_bounded {ctx : AuthContext} (hpos : 0 < ctx.maxAuthFailures)
    {history : List AuthEvent} (h : ctx.Authentic history) :
    (∀ claim, (ctx.recordAuthFailure (ctx.run history) claim).1 = true ↔
      ctx.maxAuthFailures.toNat ≤ (outstanding (history ++ [.failed claim])).length) ∧
    ((∀ front claim rest, history = front ++ .failed claim :: rest → rest ≠ [] →
        (ctx.recordAuthFailure (ctx.run front) claim).1 = false) →
      history.countP (AuthContext.guesses fun name => .succeeded (some name) ∉ history) ≤
        ctx.maxAuthFailures.toNat) ∧
    (ctx.run history).buckets ≤ ctx.auth.users.length + 2 := by
  refine ⟨AuthContext.recordAuthFailure_iff h hpos, fun hopen => ?_, AuthContext.buckets_le h⟩
  rcases List.eq_nil_or_concat history with rfl | ⟨front, last, hlast⟩
  · exact Nat.zero_le _
  · -- all but the last failure found the cap open, and the last adds one guess at most
    rw [List.concat_eq_append] at hlast
    have hfront : ctx.Authentic front := AuthContext.Authentic.front (hlast ▸ h)
    have hlt := AuthContext.length_outstanding_lt hfront hpos fun first claim rest heq =>
      hopen first claim (rest ++ [last]) (by rw [hlast, heq]; simp) (by simp)
    have hle : front.countP (AuthContext.guesses fun name => .succeeded (some name) ∉ history) ≤
        (outstanding front).length :=
      (AuthContext.countP_guesses_le fun name hmem => by simp [hlast, hmem]).trans
        List.countP_le_length
    have hone := List.countP_le_length
      (p := AuthContext.guesses fun name => .succeeded (some name) ∉ history) (l := [last])
    have hsplit :
        history.countP (AuthContext.guesses fun name => .succeeded (some name) ∉ history) =
        front.countP (AuthContext.guesses fun name => .succeeded (some name) ∉ history) +
          [last].countP (AuthContext.guesses fun name => .succeeded (some name) ∉ history) := by
      rw [← List.countP_append, ← hlast]
    rw [List.length_singleton] at hone
    omega

/-- One configured user, two failures allowed, and a success between two guesses at someone else:
the second guess is one too many. -/
theorem auth_failures_bounded_two_guesses :
    let ctx : AuthContext := ⟨⟨[⟨"alice", "secret"⟩]⟩, 2⟩
    let history : List AuthEvent := [.failed (some "mallory"), .succeeded (some "alice")]
    (ctx.recordAuthFailure (ctx.run history) (some "mallory")).1 = true ∧
      (ctx.run history).buckets ≤ 3 := by
  intro ctx history
  have h : ctx.Authentic history := by
    intro name hmem
    simp only [history, List.mem_cons, reduceCtorEq, AuthEvent.succeeded.injEq, Option.some.injEq,
      List.not_mem_nil, or_false, false_or] at hmem
    exact hmem ▸ Authenticator.isConfigured_iff.mpr ⟨_, List.mem_singleton_self _, rfl⟩
  obtain ⟨hiff, -, hbuckets⟩ := auth_failures_bounded (by decide) h
  exact ⟨(hiff _).mpr (by simp [ctx, history, outstanding, stays]), hbuckets⟩

end Volto
