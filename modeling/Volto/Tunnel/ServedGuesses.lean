import Volto.Tunnel.Served

/-!
# Guessing on a Connection

What somebody learns who tries credentials on many requests of one connection at once. Each refused
value is charged in the failure buckets, which the requests share; a request whose charges were all
within the cap is told that it was refused, and one with a charge past the cap closes the
connection. The charges of all the requests are those of one history, in some order, so what is
told is bounded however the requests are interleaved.

## Main results

* `AuthContext.countP_unspentGuess_lt`: how many guesses are within the cap, in any history.
* `Charged.run`: the charges of the requests are those of the history.
* `guesses_told_bounded`: how many guesses the peer is told about.
-/

namespace Volto

/-! ### Histories of charges -/

namespace AuthContext

variable {ctx : AuthContext} {history : List AuthEvent}

/-- What an event of a history charges, with whether that was one too many. -/
def chargeOf (ctx : AuthContext) (entry : AuthFailures × AuthEvent) :
    Option (Option String × Bool) :=
  match entry.2 with
  | .failed claim => some (claim, (ctx.recordAuthFailure entry.1 claim).1)
  | .succeeded _ => none

/-- The charges of a history, in order. -/
def charges (ctx : AuthContext) (history : List AuthEvent) : List (Option String × Bool) :=
  (History.history ctx.step .default history).filterMap ctx.chargeOf

/-- A further failure is charged to its claim. -/
@[simp] theorem charges_failed (claim : Option String) :
    ctx.charges (history ++ [.failed claim]) =
      ctx.charges history ++ [(claim, (ctx.recordAuthFailure (ctx.run history) claim).1)] := by
  simp only [charges, History.history_concat, List.filterMap_append]
  rfl

/-- A success is charged nothing. -/
@[simp] theorem charges_succeeded (username : Option String) :
    ctx.charges (history ++ [.succeeded username]) = ctx.charges history := by
  simp only [charges, History.history_concat, List.filterMap_append]
  exact List.append_nil _

/-- A guess at a user-id outside of a set that was within the cap. -/
def unspentGuess (outside : String → Bool) (charge : Option String × Bool) : Bool :=
  !charge.2 && charge.1.any outside

/-- The guesses within the cap are no more than those before some moment at which the cap was not
reached. -/
theorem exists_front_unspentGuess (h : ctx.Authentic history) (hpos : 0 < ctx.maxAuthFailures)
    (outside : String → Bool) :
    ∃ front, front <+: history ∧
      (ctx.charges history).countP (unspentGuess outside) ≤ front.countP (guesses outside) ∧
      (outstanding front).length < ctx.maxAuthFailures.toNat := by
  induction history using List.reverseRecOn with
  | nil => exact ⟨[], List.prefix_refl _, Nat.le_refl _, UInt32.lt_iff_toNat_lt.mp hpos⟩
  | append_singleton history event ih =>
      obtain ⟨front, hfront, hle, hlt⟩ := ih h.front
      cases event with
      | succeeded username =>
          rw [charges_succeeded]
          exact ⟨front, hfront.trans (List.prefix_append _ _), hle, hlt⟩
      | failed claim =>
          rw [charges_failed, List.countP_append, List.countP_singleton]
          cases hspent : (ctx.recordAuthFailure (ctx.run history) claim).1 with
          | true => exact ⟨front, hfront.trans (List.prefix_append _ _), hle, hlt⟩
          | false =>
              -- this charge is within the cap, so the cap is not reached now
              refine ⟨history ++ [.failed claim], List.prefix_refl _, ?_, ?_⟩
              · have hmore : front.countP (guesses outside) ≤ history.countP (guesses outside) :=
                  hfront.sublist.countP_le
                have hsame : unspentGuess outside (claim, false) =
                    guesses outside (.failed claim) := by
                  cases claim <;> rfl
                rw [List.countP_append, List.countP_singleton, hsame]
                omega
              · have hiff := recordAuthFailure_iff h.front hpos claim
                rw [hspent] at hiff
                simpa using hiff

/-- **The guesses within the cap are fewer than the cap**, at user-ids that have not succeeded. -/
theorem countP_unspentGuess_lt (h : ctx.Authentic history) (hpos : 0 < ctx.maxAuthFailures)
    (outside : String → Bool)
    (houtside : ∀ name, .succeeded (some name) ∈ history → outside name = false) :
    (ctx.charges history).countP (unspentGuess outside) < ctx.maxAuthFailures.toNat := by
  obtain ⟨front, hfront, hle, hlt⟩ := exists_front_unspentGuess h hpos outside
  have hguesses : front.countP (guesses outside) ≤
      (outstanding front).countP fun claim => claim.any outside :=
    countP_guesses_le fun name hmem => houtside name (hfront.subset hmem)
  have hlength := List.countP_le_length (p := fun claim : Option String => claim.any outside)
    (l := outstanding front)
  omega

end AuthContext

namespace Tunnel

namespace Handler

/-! ### What a request learns -/

variable {ctx : Context} {facts : Facts}

/-- The peer is told that the credentials of its request were refused. -/
def Facts.toldRefused (facts : Facts) : Bool :=
  facts.answered.any fun answered => answered.1.status = .proxyAuthenticationRequired

/-- A bad target is answered with 400 or 501. -/
theorem targetOf_status {percent : PercentDecoding} {req : Request} {status : Status}
    (h : targetOf percent req = .error status) :
    status = .badRequest ∨ status = .notImplemented := by
  rw [targetOf] at h
  split at h
  · split at h
    · exact .inl (Except.error.inj h).symm
    · split at h
      · exact .inl (Except.error.inj h).symm
      · cases h
  · split at h
    · exact .inl (Except.error.inj h).symm
    · split at h
      · exact .inl (Except.error.inj h).symm
      · cases h
  · exact .inr (Except.error.inj h).symm
  · exact .inr (Except.error.inj h).symm

/-- No proxy error is answered with 407. -/
theorem because_status_ne (error : ProxyError) :
    (Answer.because error).status ≠ .proxyAuthenticationRequired := by
  cases error <;> decide

/-- **Only a request whose credentials were refused is told so**, and its charges were all within
the cap. -/
theorem Due.charged_of_refused {answer : Answer} (h : Due ctx facts answer)
    (hstatus : answer.status = .proxyAuthenticationRequired) :
    ∀ charge ∈ facts.charged, charge.2 = false := by
  cases h with
  | denied _ _ _ hcharged =>
      rw [hcharged]
      intro charge hmem
      obtain ⟨claim, -, rfl⟩ := List.mem_map.mp hmem
      rfl
  | notATarget _ htarget =>
      rcases targetOf_status htarget with rfl | rfl
      · exact absurd hstatus (by decide)
      · exact absurd hstatus (by decide)
  | @unreachable _ _ _ failure _ _ _ _ =>
      exact absurd hstatus (because_status_ne (.fromConnectError failure.error))
  | limited _ _ | port _ _ _ | unresolved _ _ _ _ | prohibited _ _ _ _ =>
      exact absurd hstatus (because_status_ne _)
  | tooLarge _ _ _ | malformed _ _ | taken _ _ _ _ => exact absurd hstatus (by decide)
  | blackhole _ _ _ | accepted _ _ =>
      have hok : Status.ok ≠ .proxyAuthenticationRequired := by decide
      exact absurd hstatus hok

/-- What is known of a request that was charged, answered or let in. -/
structure Accounted (ctx : Context) (facts : Facts) : Prop where
  told : facts.toldRefused = true → ∀ charge ∈ facts.charged, charge.2 = false
  closed : facts.closed = true → ∃ charge ∈ facts.charged, charge.2 = true
  cleared : ∀ username ∈ facts.cleared, ∃ req, facts.LetIn ctx req username
  charged : facts.charged ≠ [] → ∃ req denials, facts.Read req ∧ Screened req ∧
    ctx.auth.authenticate req.fields = .error denials ∧
    facts.charged.map Prod.fst <+: denials.claims

/-- A new request has not been charged. -/
theorem accounted_new (ctx : Context) : Accounted ctx .new :=
  ⟨by rintro ⟨⟩, by rintro ⟨⟩, by rintro username ⟨⟩, fun hne => absurd rfl hne⟩

/-- A request is charged no more than the values it may carry. -/
theorem Accounted.length_charged_le (h : Accounted ctx facts) :
    facts.charged.length ≤ maxCredentialValues := by
  by_cases hne : facts.charged = []
  · rw [hne]
    exact Nat.zero_le _
  · obtain ⟨req, denials, -, hscreen, hdenied, hprefix⟩ := h.charged hne
    have hlength := hprefix.length_le
    rw [List.length_map] at hlength
    have hcharged := charged_le hdenied hscreen.2
    rw [Denials.charged_eq] at hcharged
    exact hlength.trans hcharged

/-- The rule keeps the accounts of a request. -/
theorem accounted_note (h : Accounted ctx facts) {question : Question}
    (hmay : May ctx facts question) (reply : question.Reply) :
    Accounted ctx (facts.note question reply) := by
  cases question with
  | readRequest deadline =>
      have hunread : ∀ req, ¬facts.Read req := fun req hread => by
        rw [Facts.Read, hmay.1] at hread
        cases hread
      refine ⟨h.told, h.closed, fun username hmem => ?_, fun hne => ?_⟩
      · obtain ⟨req, hread, -⟩ := h.cleared username hmem
        exact absurd hread (hunread req)
      · obtain ⟨req, -, hread, -⟩ := h.charged hne
        exact absurd hread (hunread req)
  | respond answer deadline =>
      exact ⟨fun htold => hmay.2.charged_of_refused (by simpa [Facts.toldRefused, Facts.note]
        using htold), h.closed, h.cleared, h.charged⟩
  | recordAuthFailure claim =>
      refine ⟨fun htold => ?_, fun hclosed => ?_, h.cleared, fun _ => ?_⟩
      · rw [Facts.toldRefused, Facts.note, hmay.1] at htold
        cases htold
      · obtain ⟨charge, hmem, hspent⟩ := h.closed hclosed
        exact ⟨charge, List.mem_append_left _ hmem, hspent⟩
      · obtain ⟨-, req, denials, hread, hscreen, hdenied, hprefix⟩ := hmay
        refine ⟨req, denials, hread, hscreen, hdenied, ?_⟩
        rw [Facts.note, List.map_append]
        exact hprefix
  | close code =>
      obtain ⟨-, -, req, denials, -, -, -, hspent⟩ := hmay
      exact ⟨h.told, fun _ => hspent, h.cleared, h.charged⟩
  | clearFailures username =>
      refine ⟨h.told, h.closed, fun username' hmem => ?_, h.charged⟩
      rcases List.mem_append.mp hmem with hbefore | hnew
      · exact h.cleared username' hbefore
      · rw [List.mem_singleton.mp hnew]
        exact hmay.2.2
  | now | stopReceiving _ | reset _ | finish | fail _ | mark | admitConfiguredStreams | acquire
  | countTunnel | claimDatagrams | lookup _ _ _ | holdsAddress _ | connect _ _ | bind _
  | abortTarget | relay _ | dropReceiver _ | dropSlot | dropPending | announce =>
      exact ⟨h.told, h.closed, h.cleared, h.charged⟩

end Handler

namespace Serving

open Asking Handler

variable {tokio : Sync} {cfg : Config} {s s' : Server tokio} {event : Event}

/-! ### What the requests have been charged -/

/-- What was charged and cleared on a connection, in order. -/
def Server.authHistory (s : Server tokio) : List AuthEvent :=
  s.history.map Prod.snd

/-- A charge was made by a failure of a certain task. -/
def Server.HasCharged (s : Server tokio) (cfg : Config) (i : ℕ) (charge : Option String × Bool) :
    Prop :=
  ∃ front back, s.history = front ++ (i, .failed charge.1) :: back ∧
    (cfg.authContext.recordAuthFailure (cfg.authContext.run (front.map Prod.snd)) charge.1).1 =
      charge.2

/-- A longer history has the charges of its front. -/
theorem Server.HasCharged.mono {i : ℕ} {charge : Option String × Bool}
    (h : s.HasCharged cfg i charge) {more : List (ℕ × AuthEvent)}
    (hhistory : s'.history = s.history ++ more) : s'.HasCharged cfg i charge := by
  obtain ⟨front, back, heq, hspent⟩ := h
  exact ⟨front, back ++ more, by rw [hhistory, heq, List.append_assoc, List.cons_append], hspent⟩

/-- **The charges of the requests are those of the history**, and only users that were let in have
succeeded in it. -/
structure Charged (cfg : Config) (s : Server tokio) : Prop where
  failures : s.common.failures = cfg.authContext.run s.authHistory
  authentic : cfg.authContext.Authentic s.authHistory
  charges : ∀ p, (cfg.authContext.charges s.authHistory).countP p =
    Ledger.total (fun task => task.facts.charged.countP p) s.tasks
  succeeded : ∀ i username, (i, .succeeded username) ∈ s.history →
    ∃ task, s.tasks[i]? = some task ∧ username ∈ task.facts.cleared
  own : ∀ (i : ℕ) (task : Task), s.tasks[i]? = some task → ∀ charge ∈ task.facts.charged,
    s.HasCharged cfg i charge

/-- Every task accounts for what it was charged. -/
theorem Tasks.accounted (h : Tasks cfg s) {task : Task} (hmem : task ∈ s.tasks) :
    Accounted cfg.ctx task.facts :=
  (h task hmem).invariant (accounted_new cfg.ctx) fun _ _ reply haccounted hmay =>
    accounted_note haccounted hmay reply

/-- A user that was let in is a configured one. -/
theorem isConfigured_of_letIn {facts : Facts} {req : Request} {name : String}
    (h : facts.LetIn cfg.ctx req (some name)) : cfg.ctx.auth.isConfigured name = true := by
  obtain ⟨user, hmem, hname, -⟩ := h.2.2
  exact Authenticator.isConfigured_iff.mpr ⟨user, hmem, hname⟩

section

variable {i : ℕ} {task : Task} {question : Question} (next : question.Reply → Handling Unit)
  (outside : question.Reply)

/-- A question adds its own event to the history. -/
theorem authHistory_asked :
    (s.asked cfg i task question next outside).authHistory =
      s.authHistory ++ (authEvent question).toList := by
  have hsnd : (Prod.snd ∘ fun event : AuthEvent => (i, event)) = id := rfl
  simp only [Server.authHistory, Server.asked, List.map_append, List.map_map, hsnd, List.map_id]

/-- A question of a task is the next event of the failures. -/
theorem failures_asked (h : s.common.failures = cfg.authContext.run s.authHistory) :
    (s.asked cfg i task question next outside).common.failures =
      cfg.authContext.run (s.asked cfg i task question next outside).authHistory := by
  rw [authHistory_asked]
  cases question with
  | recordAuthFailure claim =>
      rw [authEvent, Option.toList_some, AuthContext.run_concat, ← h]
      rfl
  | clearFailures username =>
      rw [authEvent, Option.toList_some, AuthContext.run_concat, ← h]
      rfl
  | now | readRequest _ | stopReceiving _ | reset _ | finish | fail _ | respond _ _ | close _ | mark
  | admitConfiguredStreams | acquire | countTunnel | claimDatagrams | lookup _ _ _
  | holdsAddress _ | connect _ _ | bind _ | abortTarget | relay _ | dropReceiver _ | dropSlot
  | dropPending | announce =>
      simp only [authEvent, Option.toList_none, List.append_nil]
      exact h

/-- Successes are as users that were let in. -/
theorem authentic_asked (h : cfg.authContext.Authentic s.authHistory)
    (hmay : May cfg.ctx task.facts question) :
    cfg.authContext.Authentic (s.asked cfg i task question next outside).authHistory := by
  intro name hmem
  rw [authHistory_asked] at hmem
  rcases List.mem_append.mp hmem with hbefore | hnew
  · exact h name hbefore
  · rw [Option.mem_toList] at hnew
    cases question with
    | clearFailures username =>
        obtain rfl : username = some name := by simpa [authEvent] using hnew
        obtain ⟨-, -, req, hin⟩ := hmay
        exact isConfigured_of_letIn hin
    | recordAuthFailure claim => simp [authEvent] at hnew
    | now | readRequest _ | stopReceiving _ | reset _ | finish | fail _ | respond _ _ | close _
    | mark | admitConfiguredStreams | acquire | countTunnel | claimDatagrams | lookup _ _ _
    | holdsAddress _ | connect _ _ | bind _ | abortTarget | relay _ | dropReceiver _ | dropSlot
    | dropPending | announce => cases hnew

variable (task) in
/-- What is charged in the history is charged to the task that asks. -/
theorem charges_asked (h : s.common.failures = cfg.authContext.run s.authHistory)
    (p : Option String × Bool → Bool) :
    (cfg.authContext.charges (s.asked cfg i task question next outside).authHistory).countP p +
        task.facts.charged.countP p =
      (cfg.authContext.charges s.authHistory).countP p + (task.facts.note question
        (s.common.answer cfg task.streamId question outside).1).charged.countP p := by
  rw [authHistory_asked]
  cases question with
  | recordAuthFailure claim =>
      rw [authEvent, Option.toList_some, AuthContext.charges_failed, ← h]
      simp only [Common.answer, Facts.note, List.countP_append]
      omega
  | clearFailures username =>
      rw [authEvent, Option.toList_some, AuthContext.charges_succeeded]
      rfl
  | now | readRequest _ | stopReceiving _ | reset _ | finish | fail _ | respond _ _ | close _ | mark
  | admitConfiguredStreams | acquire | countTunnel | claimDatagrams | lookup _ _ _
  | holdsAddress _ | connect _ _ | bind _ | abortTarget | relay _ | dropReceiver _ | dropSlot
  | dropPending | announce =>
      simp only [authEvent, Option.toList_none, List.append_nil]
      rfl

/-- What was cleared stays cleared. -/
theorem mem_cleared_note {facts : Facts} {username : Option String}
    (hmem : username ∈ facts.cleared) (reply : question.Reply) :
    username ∈ (facts.note question reply).cleared := by
  cases question with
  | clearFailures other => exact List.mem_append_left _ hmem
  | now | readRequest _ | stopReceiving _ | reset _ | finish | fail _ | respond _ _ | close _ | mark
  | admitConfiguredStreams | recordAuthFailure _ | acquire | countTunnel | claimDatagrams
  | lookup _ _ _ | holdsAddress _ | connect _ _ | bind _ | abortTarget | relay _ | dropReceiver _
  | dropSlot | dropPending | announce => exact hmem

/-- What a task is charged when it asks was charged before, or is the failure it asks for. -/
theorem hasCharged_asked (h : s.common.failures = cfg.authContext.run s.authHistory)
    (hown : ∀ charge ∈ task.facts.charged, s.HasCharged cfg i charge) :
    ∀ charge ∈ (task.facts.note question
        (s.common.answer cfg task.streamId question outside).1).charged,
      (s.asked cfg i task question next outside).HasCharged cfg i charge := by
  intro charge hmem
  have hold (hbefore : charge ∈ task.facts.charged) :
      (s.asked cfg i task question next outside).HasCharged cfg i charge :=
    (hown charge hbefore).mono rfl
  cases question with
  | recordAuthFailure claim =>
      rcases List.mem_append.mp hmem with hbefore | hnew
      · exact hold hbefore
      · rw [List.mem_singleton.mp hnew]
        refine ⟨s.history, [], rfl, ?_⟩
        rw [show s.history.map Prod.snd = s.authHistory from rfl, ← h]
        rfl
  | now | readRequest _ | stopReceiving _ | reset _ | finish | fail _ | respond _ _ | close _ | mark
  | admitConfiguredStreams | clearFailures _ | acquire | countTunnel | claimDatagrams | lookup _ _ _
  | holdsAddress _ | connect _ _ | bind _ | abortTarget | relay _ | dropReceiver _ | dropSlot
  | dropPending | announce => exact hold hmem

end

/-- A reply keeps the account of the charges. -/
theorem Charged.asked (h : Charged cfg s) {i : ℕ} {task : Task} {question : Question}
    (next : question.Reply → Handling Unit) (hi : s.tasks[i]? = some task)
    (hmay : May cfg.ctx task.facts question) (outside : question.Reply) :
    Charged cfg (s.asked cfg i task question next outside) where
  failures := failures_asked next outside h.failures
  authentic := authentic_asked next outside h.authentic hmay
  charges p := by
    have hcharges := charges_asked (i := i) task next outside h.failures p
    have htotal := Server.total_asked next cfg (fun facts => facts.charged.countP p) hi outside
    have hsame := h.charges p
    omega
  succeeded j username hmem := by
    rcases List.mem_append.mp hmem with hbefore | hnew
    · obtain ⟨other, hj, hcleared⟩ := h.succeeded j username hbefore
      rw [Server.tasks_asked]
      by_cases hji : j = i
      · subst hji
        obtain rfl := Option.some.inj (hi.symm.trans hj)
        refine ⟨_, (Slots.getElem?_set hi).mpr (.inl ⟨rfl, rfl⟩), ?_⟩
        rw [Task.facts_answered]
        exact mem_cleared_note hcleared _
      · exact ⟨other, (Slots.getElem?_set hi).mpr (.inr ⟨hji, hj⟩), hcleared⟩
    · obtain ⟨event, hevent, heq⟩ := List.mem_map.mp hnew
      obtain ⟨rfl, rfl⟩ := Prod.mk.inj heq
      rw [Option.mem_toList] at hevent
      rw [Server.tasks_asked]
      refine ⟨_, (Slots.getElem?_set hi).mpr (.inl ⟨rfl, rfl⟩), ?_⟩
      rw [Task.facts_answered]
      cases question with
      | clearFailures cleared =>
          obtain rfl : cleared = username := by simpa [authEvent] using hevent
          exact List.mem_append_right _ List.mem_cons_self
      | recordAuthFailure claim => simp [authEvent] at hevent
      | now | readRequest _ | stopReceiving _ | reset _ | finish | fail _ | respond _ _ | close _
      | mark | admitConfiguredStreams | acquire | countTunnel | claimDatagrams | lookup _ _ _
      | holdsAddress _ | connect _ _ | bind _ | abortTarget | relay _ | dropReceiver _ | dropSlot
      | dropPending | announce => cases hevent
  own j task' hj charge hmem := by
    rw [Server.tasks_asked] at hj
    rcases (Slots.getElem?_set hi).mp hj with ⟨rfl, rfl⟩ | ⟨-, hold⟩
    · rw [Task.facts_answered] at hmem
      exact hasCharged_asked next outside h.failures (h.own j task hi) charge hmem
    · exact (h.own j task' hold charge hmem).mono rfl

/-- A step of the server keeps the account of the charges. -/
theorem Charged.steps (h : Charged cfg s) (htasks : Tasks cfg s) (hstep : Steps cfg s event s') :
    Charged cfg s' := by
  cases hstep with
  | asked hi hrest _ => exact h.asked _ hi (htasks.may hi hrest) _
  | accepted _ _ _ _ =>
      refine ⟨h.failures, h.authentic, fun p => ?_, fun i username hmem => ?_,
        fun i task hi charge hmem => ?_⟩
      · simp only [Server.accept, Ledger.total_concat]
        exact h.charges p
      · obtain ⟨task, hi, hcleared⟩ := h.succeeded i username hmem
        exact ⟨task, Slots.getElem?_concat.mpr (.inl hi), hcleared⟩
      · rcases Slots.getElem?_concat.mp hi with hold | ⟨-, rfl⟩
        · exact (h.own i task hold charge hmem).mono (List.append_nil _).symm
        · cases hmem
  | beside hbeside =>
      have hhistory : s'.authHistory = s.authHistory := congrArg (List.map Prod.snd) hbeside.history
      refine ⟨?_, ?_, fun p => ?_, ?_, fun i task hi charge hmem => ?_⟩
      · rw [hhistory, hbeside.failures]
        exact h.failures
      · rw [hhistory]
        exact h.authentic
      · rw [hhistory, hbeside.tasks]
        exact h.charges p
      · rw [hbeside.history, hbeside.tasks]
        exact h.succeeded
      · rw [hbeside.tasks] at hi
        exact (h.own i task hi charge hmem).mono
          (hbeside.history.trans (List.append_nil _).symm)

/-- **Run lemma**: the charges are accounted for in every interleaving. -/
theorem Charged.run (tokio : Sync) (cfg : Config) (dropped : UInt64) (events : List Event) :
    Charged cfg ((Server.new tokio cfg dropped).run cfg events) :=
  Tasks.run_invariant dropped
    ⟨rfl, fun _ hmem => absurd hmem List.not_mem_nil, fun _ => rfl,
      fun _ _ hmem => absurd hmem List.not_mem_nil, fun _ _ hi => by cases hi⟩
    (fun s event htasks h => h.steps htasks (s.steps cfg event)) events

/-! ### What the peer learns -/

/-- The guesses that a request is told were refused. -/
def toldGuesses (outside : String → Bool) (facts : Facts) : ℕ :=
  if facts.toldRefused then facts.charged.countP fun charge => charge.1.any outside else 0

/-- A task is told no more guesses than it was charged for. -/
theorem toldGuesses_le {facts : Facts} (h : Accounted cfg.ctx facts) (outside : String → Bool) :
    toldGuesses outside facts ≤ facts.charged.countP (AuthContext.unspentGuess outside) := by
  rw [toldGuesses]
  split_ifs with htold
  · refine (List.countP_congr fun charge hmem => ?_).le
    rw [AuthContext.unspentGuess, h.told htold charge hmem]
    rfl
  · exact Nat.zero_le _

/-- **Guessing on many requests at once gets nobody more answers**, whatever is interleaved. Of all
the requests of a connection together, those that are told that they were refused have fewer guesses
than the cap, at user-ids nobody was let in as on that connection. A success is by a request that
was let in as that user. A request closes the connection only for a failure of its own that has
brought the outstanding ones to the cap. And none is charged more often than a request may carry
credentials. -/
theorem guesses_told_bounded (tokio : Sync) (cfg : Config) (dropped : UInt64)
    (events : List Event) :
    let s := (Server.new tokio cfg dropped).run cfg events
    let outside name := decide (.succeeded (some name) ∉ s.authHistory)
    (0 < cfg.maxAuthFailures →
      Ledger.total (fun task => toldGuesses outside task.facts) s.tasks <
        cfg.maxAuthFailures.toNat) ∧
    (∀ i username, (i, .succeeded username) ∈ s.history → ∃ task, s.tasks[i]? = some task ∧
      ∃ req, task.facts.LetIn cfg.ctx req username) ∧
    (∀ i task, s.tasks[i]? = some task → task.facts.closed = true → 0 < cfg.maxAuthFailures ∧
      ∃ front claim back, s.history = front ++ (i, .failed claim) :: back ∧
        (claim, true) ∈ task.facts.charged ∧
        cfg.maxAuthFailures.toNat ≤
          (outstanding (front.map Prod.snd ++ [.failed claim])).length) ∧
    ∀ task ∈ s.tasks, task.facts.charged.length ≤ maxCredentialValues := by
  intro s outside
  have htasks : Tasks cfg s := Tasks.run tokio cfg dropped events
  have hcharged : Charged cfg s := Charged.run tokio cfg dropped events
  refine ⟨fun hpos => ?_, fun i username hmem => ?_, fun i task hi hclosed => ?_,
    fun task hmem => (htasks.accounted hmem).length_charged_le⟩
  · have hbound := AuthContext.countP_unspentGuess_lt hcharged.authentic hpos outside
      fun name hmem => by simpa [outside] using hmem
    rw [hcharged.charges] at hbound
    refine (List.sum_le_sum fun task hmem => ?_).trans_lt hbound
    exact toldGuesses_le (htasks.accounted hmem) outside
  · obtain ⟨task, hi, hcleared⟩ := hcharged.succeeded i username hmem
    exact ⟨task, hi, (htasks.accounted (List.mem_of_getElem? hi)).cleared username hcleared⟩
  · have haccounted := htasks.accounted (List.mem_of_getElem? hi)
    obtain ⟨⟨claim, spent⟩, hcharge, rfl⟩ := haccounted.closed hclosed
    obtain ⟨front, back, hhistory, htrue⟩ := hcharged.own i task hi _ hcharge
    have hpos : 0 < cfg.maxAuthFailures := by
      rw [AuthContext.recordAuthFailure, decide_eq_true_iff] at htrue
      exact htrue.1
    have hall := hcharged.authentic
    rw [Server.authHistory, hhistory, List.map_append] at hall
    have hfront : cfg.authContext.Authentic (front.map Prod.snd) := AuthContext.Authentic.front hall
    exact ⟨hpos, front, claim, back, hhistory, hcharge,
      (AuthContext.recordAuthFailure_iff hfront hpos claim).mp htrue⟩

/-- Two requests with the same wrong password under a cap of two: the first is told that it was
refused, and the second closes the connection. -/
theorem guesses_told_bounded_two :
    let cfg : Config :=
      ⟨⟨⟨[⟨"alice", "secret"⟩]⟩, ⟨false, []⟩, 30, none, .system, percentDecodeStr⟩, 2, 1⟩
    let guess : Request := ⟨.connect, none, some (ascii "localhost"), none, none, none,
      [(ascii "proxy-authorization", ⟨ascii "Basic YWxpY2U6YmFk", by decide⟩)]⟩
    let s := (Server.new .reference cfg 0).run cfg
      ([.arrive, .arrive, .loop .select, .loop .next, .loop .next, .loop .next, .loop .select,
        .loop .next, .loop .next, .loop .next] ++
        List.replicate 9 (.task 0 (sending guess)) ++ List.replicate 9 (.task 1 (sending guess)))
    s.tasks.map (fun task => (task.facts.charged, task.facts.toldRefused, task.facts.closed)) =
        [([(some "alice", false)], true, false), ([(some "alice", true)], false, true)] ∧
      ∃ front claim back, s.history = front ++ (1, .failed claim) :: back ∧
        2 ≤ (outstanding (front.map Prod.snd ++ [.failed claim])).length := by
  intro cfg guess s
  have hclosed : (s.tasks[1]?).any (fun task => task.facts.closed) = true := by decide +kernel
  obtain ⟨task, hi, htask⟩ := (Option.any_eq_true _ _).mp hclosed
  obtain ⟨-, -, hown, -⟩ := guesses_told_bounded .reference cfg 0 _
  obtain ⟨-, front, claim, back, hhistory, -, hcap⟩ := hown 1 task hi htask
  exact ⟨by decide +kernel, front, claim, back, hhistory, hcap⟩

end Serving

end Tunnel

end Volto
