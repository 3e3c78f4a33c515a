import Volto.Tunnel.ServedDrain
import Volto.Tunnel.ServedGuesses

/-!
# The Datagrams of a Connection

A CONNECT-UDP request claims the datagrams of its own stream. The claims of a connection are in one
table, by the ids of the streams, and streams have ids of their own, so no request ever finds its
datagrams taken, and no session is given what was sent to another one.

## Main results

* `Sessions.run`: the claims in the table are those of the tasks, each of its own stream.
* `udp_sessions_isolated`: whose datagrams a session is given.
-/

namespace Volto

namespace Datagrams

namespace Shared

/-- The router leaves the claims as they are. -/
theorem claims_router {s : Shared} {action : Action}
    (haction : Tunnel.Serving.ofRouter action = true) (i q : ℕ) :
    (s.step action).Claims i q ↔ s.Claims i q := by
  cases action with
  | register _ | drop _ => cases haction
  | countDrop k =>
      rw [step, countDrop]
      split
      · exact Iff.rfl
      · exact Iff.rfl
  | recv j =>
      rw [step, recv]
      split
      · exact Iff.rfl
      · rename_i r hj
        split
        · rename_i delivery queue _ _
          exact claims_set { r with queue := queue, received := r.received ++ [delivery] } hj rfl
            rfl rfl i q
        · exact Iff.rfl
  | deliver decoded =>
      rw [step, deliver]
      simp only
      split_ifs
      · exact Iff.rfl
      · split
        · exact Iff.rfl
        · rename_i j _
          split
          · rename_i receivers hsend
            obtain ⟨r, hj, -, -, rfl⟩ := trySend_eq_some hsend
            exact claims_set { r with
              queue := r.queue ++ [⟨s.calls.length, decoded.payload⟩] } hj rfl rfl rfl i q
          · exact Iff.rfl

/-- An id that nobody claims can be claimed. -/
theorem Inv.register_free {initial : UInt64} {s : Shared} (h : Inv initial s) {q : ℕ}
    (hfree : ∀ i, ¬s.Claims i q) :
    (s.registerDatagrams q).1 = some s.receivers.length ∧
      ∀ i q', (s.registerDatagrams q).2.Claims i q' ↔
        s.Claims i q' ∨ (i = s.receivers.length ∧ q' = q) := by
  have hnone : s.sessions q = none := by
    cases hq : s.sessions q with
    | none => rfl
    | some i => exact absurd ((h.table q i).mp hq) (hfree i)
  simp only [registerDatagrams, hnone, true_and]
  intro i q'
  rw [claims_concat rfl rfl]

/-- A receiver that is dropped takes its claim with it. -/
theorem claims_drop {s : Shared} {r q : ℕ} (hclaims : s.Claims r q) (i q' : ℕ) :
    (s.drop r).Claims i q' ↔ i ≠ r ∧ s.Claims i q' := by
  obtain ⟨receiver, hr, hlive, -⟩ := hclaims
  rw [drop, hr]
  simp only [hlive, if_true]
  exact claims_close _ hr rfl rfl i q'

/-- A receiver claims one id. -/
theorem Claims.unique {s : Shared} {i q q' : ℕ} (h : s.Claims i q) (h' : s.Claims i q') :
    q = q' := by
  obtain ⟨r, hr, -, rfl⟩ := h
  obtain ⟨r', hr', -, rfl⟩ := h'
  obtain rfl := Option.some.inj (hr.symm.trans hr')
  rfl

end Shared

end Datagrams

namespace Tunnel

namespace Handler

variable {ctx : Context} {facts : Facts}

/-! ### What a request claims -/

/-- An answer over a proxy error has a field. -/
theorem because_fields_ne (error : ProxyError) : (Answer.because error).fields ≠ [] := by
  cases error <;> decide

/-- A failed dial is answered with fields. -/
theorem unreachable_fields_ne (failure : Unreachable) :
    (Answer.unreachable failure).fields ≠ [] := by
  obtain ⟨value, hvalue, -⟩ :=
    (ProxyError.fromConnectError failure.error).readProxyStatus_fieldsWithNextHop failure.nextHop
  rw [Answer.unreachable, hvalue]
  exact List.cons_ne_nil _ _

/-- **The bare 500 is only for datagrams that are taken.** -/
theorem Due.claimed_of_internal (h : Due ctx facts (.plain .internalServerError)) :
    facts.claimed = some none := by
  generalize hanswer : Answer.plain .internalServerError = answer at h
  have hstatus : answer.status = .internalServerError := hanswer ▸ rfl
  have hfields : answer.fields = [] := hanswer ▸ rfl
  cases h with
  | taken _ _ _ hclaimed => exact hclaimed
  | notATarget _ htarget =>
      rcases targetOf_status htarget with rfl | rfl
      · exact absurd hstatus (by decide)
      · exact absurd hstatus (by decide)
  | unreachable _ _ _ _ => exact absurd hfields (unreachable_fields_ne _)
  | limited _ _ | port _ _ _ | unresolved _ _ _ _ | prohibited _ _ _ _ =>
      exact absurd hfields (because_fields_ne _)
  | tooLarge _ _ _ | malformed _ _ | denied _ _ _ _ => exact absurd hstatus (by decide)
  | blackhole _ _ _ | accepted _ _ =>
      have hok : Status.ok ≠ .internalServerError := by decide
      exact absurd hstatus hok

/-- What is known of a request that has claimed its datagrams. -/
structure Claimed (facts : Facts) : Prop where
  unclaimed : facts.claimed = none → facts.receiver = none
  internal : ∀ taken, facts.answered = some (.plain .internalServerError, taken) →
    facts.claimed = some none

/-- A handler that has not begun has claimed nothing. -/
theorem claimed_new : Claimed .new :=
  ⟨fun _ => rfl, by rintro taken ⟨⟩⟩

/-- A reply keeps the account of what the handler has claimed. -/
theorem claimed_note (h : Claimed facts) {question : Question} (hmay : May ctx facts question)
    (reply : question.Reply) : Claimed (facts.note question reply) := by
  cases question with
  | claimDatagrams =>
      obtain ⟨-, req, target, hopen, -⟩ := hmay
      refine ⟨by rintro ⟨⟩, fun taken hanswered => ?_⟩
      cases hopen.2.1.symm.trans hanswered
  | respond answer deadline =>
      refine ⟨h.unclaimed, fun taken hanswered => ?_⟩
      obtain ⟨rfl, -⟩ := Prod.mk.inj (Option.some.inj hanswered)
      exact hmay.2.claimed_of_internal
  | dropReceiver i => exact ⟨fun _ => rfl, h.internal⟩
  | now | readRequest _ | stopReceiving _ | reset _ | finish | fail _ | recordAuthFailure _
  | close _ | mark | admitConfiguredStreams | clearFailures _ | acquire | countTunnel
  | lookup _ _ _ | holdsAddress _ | connect _ _ | bind _ | abortTarget | relay _ | dropSlot
  | dropPending | announce => exact ⟨h.unclaimed, h.internal⟩

end Handler

namespace Serving

open Asking Handler Datagrams

variable {tokio : Sync} {cfg : Config} {s s' : Server tokio} {event : Event} {initial : UInt64}

/-! ### The table -/

/-- Every task accounts for what it has claimed. -/
theorem Tasks.claimed (h : Tasks cfg s) {task : Task} (hmem : task ∈ s.tasks) :
    Claimed task.facts :=
  (h task hmem).invariant claimed_new fun _ _ reply hclaimed hmay =>
    claimed_note hclaimed hmay reply

/-- **The claims in the table are those of the tasks**, each of its own stream, and no claim was
refused. -/
structure Sessions (initial : UInt64) (s : Server tokio) : Prop where
  inv : s.common.datagrams.Inv initial
  holds : ∀ r q, s.common.datagrams.Claims r q ↔
    ∃ task, s.tasks[q]? = some task ∧ task.facts.receiver = some r
  free : ∀ task ∈ s.tasks, task.facts.claimed ≠ some none

/-- A new server has no sessions. -/
theorem Sessions.new (tokio : Sync) (cfg : Config) (dropped : UInt64) :
    Sessions dropped (Server.new tokio cfg dropped) where
  inv := Shared.inv_start dropped
  holds r q := by simp [Server.new, Common.new, Shared.start, Shared.Claims]
  free task hmem := absurd hmem List.not_mem_nil

/-- A task has moved on, and so has its claim. -/
theorem Sessions.replace (h : Sessions initial s) {i : ℕ} {task task' : Task}
    (hi : s.tasks[i]? = some task) (htasks : s'.tasks = s.tasks.set i task')
    (hinv : s'.common.datagrams.Inv initial)
    (hown : ∀ r, s'.common.datagrams.Claims r i ↔ task'.facts.receiver = some r)
    (hothers : ∀ r q, q ≠ i → (s'.common.datagrams.Claims r q ↔ s.common.datagrams.Claims r q))
    (hfree : task'.facts.claimed ≠ some none) : Sessions initial s' := by
  refine ⟨hinv, fun r q => ?_, fun other hmem => ?_⟩
  · simp only [htasks, Slots.getElem?_set hi]
    by_cases hq : q = i
    · subst hq
      simp [hown]
    · rw [hothers r q hq, h.holds]
      simp [hq]
  · rw [htasks] at hmem
    rcases List.mem_or_eq_of_mem_set hmem with hold | rfl
    · exact h.free other hold
    · exact hfree

/-- A reply keeps the account of the sessions. -/
theorem Sessions.asked (h : Sessions initial s) {i : ℕ} {task : Task} {question : Question}
    (next : question.Reply → Handling Unit) (hi : s.tasks[i]? = some task)
    (hid : task.streamId = requestStreamStep * i) (hclaimed : Claimed task.facts)
    (hmay : May cfg.ctx task.facts question) (outside : question.Reply) :
    Sessions initial (s.asked cfg i task question next outside) := by
  have hown : ∀ r, s.common.datagrams.Claims r i ↔ task.facts.receiver = some r := by
    intro r
    rw [h.holds, hi]
    simp
  have hfree := h.free task (List.mem_of_getElem? hi)
  cases question with
  | claimDatagrams =>
      have hquarter : quarterStreamId task.streamId = i := by
        rw [hid, quarterStreamId, requestStreamStep]
        omega
      have hnone : ∀ r, ¬s.common.datagrams.Claims r i := by
        intro r hclaims
        rw [hown, hclaimed.unclaimed hmay.1] at hclaims
        cases hclaims
      obtain ⟨hreply, hclaims⟩ := h.inv.register_free hnone
      refine h.replace hi Server.tasks_asked ?_ (fun r => ?_) (fun r q hq => ?_) ?_
      · simp only [Server.asked, Common.answer, hquarter]
        exact h.inv.register i
      · rw [Task.facts_answered]
        simp only [Server.asked, Common.answer, hquarter, hreply, hclaims, Facts.note, hnone,
          false_or, and_true, Option.some.injEq]
        exact eq_comm
      · simp only [Server.asked, Common.answer, hquarter, hclaims, hq, and_false, or_false]
      · rw [Task.facts_answered]
        simp [Common.answer, hquarter, hreply, Facts.note]
  | dropReceiver r =>
      have hclaims : s.common.datagrams.Claims r i := (hown r).mpr hmay
      refine h.replace hi Server.tasks_asked (h.inv.drop r) (fun r' => ?_) (fun r' q hq => ?_) ?_
      · rw [Task.facts_answered]
        refine iff_of_false (fun hafter => ?_) (by rintro ⟨⟩)
        obtain ⟨hne, hbefore⟩ := (Shared.claims_drop hclaims r' i).mp hafter
        exact hne (Option.some.inj (((hown r').mp hbefore).symm.trans hmay))
      · refine (Shared.claims_drop hclaims r' q).trans (and_iff_right_of_imp fun hother => ?_)
        rintro rfl
        exact hq (hother.unique hclaims)
      · rw [Task.facts_answered]
        exact hfree
  | now | readRequest _ | stopReceiving _ | reset _ | finish | fail _ | respond _ _
  | recordAuthFailure _ | close _ | mark | admitConfiguredStreams | clearFailures _ | acquire
  | countTunnel | lookup _ _ _ | holdsAddress _ | connect _ _ | bind _ | abortTarget | relay _
  | dropSlot | dropPending | announce =>
      refine h.replace hi Server.tasks_asked h.inv (fun r => ?_) (fun r q _ => Iff.rfl) ?_
      · rw [Task.facts_answered]
        exact hown r
      · rw [Task.facts_answered]
        exact hfree

/-- A step of the server keeps the account of the sessions. -/
theorem Sessions.steps (h : Sessions initial s) (htasks : Tasks cfg s) (hstreams : Streams s)
    (hstep : Steps cfg s event s') : Sessions initial s' := by
  cases hstep with
  | asked hi hrest _ =>
      exact h.asked _ hi (hstreams.ids _ _ hi) (htasks.claimed (List.mem_of_getElem? hi))
        (htasks.may hi hrest) _
  | accepted _ _ _ _ =>
      refine ⟨h.inv, fun r q => (h.holds r q).trans ?_, fun task hmem => ?_⟩
      · simp only [Server.accept, Slots.getElem?_concat]
        constructor
        · rintro ⟨task, hq, hreceiver⟩
          exact ⟨task, .inl hq, hreceiver⟩
        · rintro ⟨task, hq | ⟨-, rfl⟩, hreceiver⟩
          · exact ⟨task, hq, hreceiver⟩
          · cases hreceiver
      · rcases List.mem_append.mp hmem with hold | hnew
        · exact h.free task hold
        · rw [List.mem_singleton.mp hnew]
          rintro ⟨⟩
  | beside hbeside =>
      refine ⟨?_, fun r q => ?_, ?_⟩
      · rcases hbeside.datagrams with heq | ⟨action, -, heq⟩
        · exact heq ▸ h.inv
        · exact heq ▸ h.inv.step action
      · rw [hbeside.tasks, ← h.holds]
        rcases hbeside.datagrams with heq | ⟨action, haction, heq⟩
        · rw [heq]
        · rw [heq]
          exact Shared.claims_router haction r q
      · rw [hbeside.tasks]
        exact h.free

/-- **Run lemma**: the sessions are accounted for in every interleaving. -/
theorem Sessions.run (tokio : Sync) (cfg : Config) (dropped : UInt64) (events : List Event) :
    Sessions dropped ((Server.new tokio cfg dropped).run cfg events) :=
  (Tasks.run_invariant (P := fun s => Streams s ∧ Sessions dropped s) dropped
    ⟨Streams.new tokio cfg dropped, Sessions.new tokio cfg dropped⟩
    (fun s event htasks h =>
      have hsteps := s.steps cfg event
      ⟨h.1.steps hsteps, h.2.steps htasks h.1 hsteps⟩) events).2

/-- **UDP sessions are kept apart**, whatever is interleaved. The tasks are those of the request
streams in the order of their ids, and the claims of a connection are those of its tasks, each of
its own stream. So no request finds its datagrams taken, and
none is answered with a bare 500; and whatever the session of a task has been given was sent by the
peer for that stream, as a UDP payload, byte for byte. -/
theorem udp_sessions_isolated (tokio : Sync) (cfg : Config) (dropped : UInt64)
    (events : List Event) :
    let s := (Server.new tokio cfg dropped).run cfg events
    (∀ q task, s.tasks[q]? = some task → task.streamId = requestStreamStep * q) ∧
    (∀ r q, s.common.datagrams.Claims r q ↔
      ∃ task, s.tasks[q]? = some task ∧ task.facts.receiver = some r) ∧
    (∀ task ∈ s.tasks, task.facts.claimed ≠ some none ∧
      ∀ taken, task.facts.answered ≠ some (.plain .internalServerError, taken)) ∧
    ∀ (q r : ℕ) (task : Task) (receiver : Receiver), s.tasks[q]? = some task →
      task.facts.receiver = some r → s.common.datagrams.receivers[r]? = some receiver →
      ∀ given ∈ receiver.given, ∃ decoded, s.common.datagrams.calls[given.call]? = some decoded ∧
        decoded.quarterStreamId = q ∧ decoded.contextId = contextIdUdpPayload ∧
        decoded.payload = given.payload := by
  intro s
  have htasks : Tasks cfg s := Tasks.run tokio cfg dropped events
  have hsessions : Sessions dropped s := Sessions.run tokio cfg dropped events
  refine ⟨(Streams.run tokio cfg dropped events).ids, hsessions.holds,
    fun task hmem => ⟨hsessions.free task hmem, fun taken hanswered => ?_⟩,
    fun q r task receiver hq hreceiver hr given hgiven => ?_⟩
  · exact hsessions.free task hmem ((htasks.claimed hmem).internal taken hanswered)
  · obtain ⟨receiver', hr', -, rfl⟩ := (hsessions.holds r q).mpr ⟨task, hq, hreceiver⟩
    obtain rfl := Option.some.inj (hr.symm.trans hr')
    exact (hsessions.inv.sound r receiver hr).own given hgiven

end Serving

end Tunnel

end Volto
