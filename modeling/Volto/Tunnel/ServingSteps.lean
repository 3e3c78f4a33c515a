import Volto.Lib.Ledger
import Volto.Lib.Slots
import Volto.Tunnel.Drain
import Volto.Tunnel.Serving

/-!
# The Steps of a Connection

What one event can do to a connection: a task has one more answer, a request is accepted, or neither
the tasks nor what they share has changed beside the waits of the drain, the routing of datagrams
and the clock. Everything that holds of every run is derived from that.

## Main results

* `Server.steps`: the three kinds of steps.
* `Tasks.run`: every task keeps the rule of a request, whatever is interleaved with it.
* `Held.run`: the counts of the quota are what the tasks hold.
-/

namespace Volto

namespace Tunnel

namespace Serving

open Asking Handler

variable {tokio : Sync} {cfg : Config} {s s' : Server tokio} {event : Event}

/-- What is known of the request of a task. -/
def Task.facts (task : Task) : Facts :=
  learn Facts.note .new task.progress.asked

/-! ### The kinds of steps -/

/-- What the waits of a drain do to the quota. -/
def ofWaits : QuotaEvent → Bool
  | .wait | .advance _ | .dropWait _ => true
  | _ => false

/-- What the router does with datagrams. -/
def ofRouter : Datagrams.Shared.Action → Bool
  | .deliver _ | .countDrop _ | .recv _ => true
  | _ => false

/-- What becomes of the request streams when none is accepted. -/
inductive Handover (s s' : Server tokio) : Prop
  | same (hrequests : s'.requests = s.requests) (hqueue : s'.queue = s.queue)
      (harrived : s'.arrived = s.arrived)
  | arrived (hroom : requestStreamStep * s.arrived ≤ varintMax)
      (hrequests : s'.requests = s.requests)
      (hqueue : s'.queue = s.queue ++ [requestStreamStep * s.arrived])
      (harrived : s'.arrived = s.arrived + 1)
  | shutdown (hrequests : s'.requests = s.requests.shutdown.2) (hqueue : s'.queue = s.queue)
      (harrived : s'.arrived = s.arrived)
  | rejected {log : List Requests.Event}
      (haccept : s.requests.acceptLoop s.queue = (log, s'.requests, s'.queue))
      (hnone : ∀ id, log.getLast? ≠ some (.served id)) (harrived : s'.arrived = s.arrived)

/-- **A step beside the tasks** leaves what they share alone. -/
structure Beside (s s' : Server tokio) : Prop where
  tasks : s'.tasks = s.tasks
  history : s'.history = s.history
  failures : s'.common.failures = s.common.failures
  gate : s'.common.gate = s.common.gate
  raised : s'.common.raised = s.common.raised
  quota : s'.common.quota = s.common.quota ∨
    ∃ event, ofWaits event = true ∧ s'.common.quota = s.common.quota.step event
  datagrams : s'.common.datagrams = s.common.datagrams ∨
    ∃ action, ofRouter action = true ∧ s'.common.datagrams = s.common.datagrams.step action
  now : s.common.now ≤ s'.common.now
  deadline : s'.deadline = s.deadline
  streams : Handover s s'

/-- A step that the loop only goes on with. -/
theorem Beside.goto (loop : Loop) : Beside s { s with loop := loop } :=
  ⟨rfl, rfl, rfl, rfl, rfl, .inl rfl, .inl rfl, Nat.le_refl _, rfl, .same rfl rfl rfl⟩

/-- A server stands beside itself. -/
theorem Beside.refl (s : Server tokio) : Beside s s :=
  .goto s.loop

/-- A step of the loop that is about a wait. -/
theorem Beside.wait {event : QuotaEvent} (hevent : ofWaits event = true) (loop : Loop) :
    Beside s { s.withQuota (s.common.quota.step event) with loop := loop } :=
  ⟨rfl, rfl, rfl, rfl, rfl, .inr ⟨event, hevent, rfl⟩, .inl rfl, Nat.le_refl _, rfl,
    .same rfl rfl rfl⟩

/-- A branch of the `select!` that is left drops its wait. -/
theorem dropIdle_eq_some {quota quota' : Quota tokio} {idle : Option ℕ}
    (h : dropIdle quota idle = some quota') :
    quota' = quota ∨ ∃ event, ofWaits event = true ∧ quota' = quota.step event := by
  cases idle with
  | none => exact .inl (Option.some.inj h).symm
  | some w =>
      rw [dropIdle] at h
      split at h
      · exact .inr ⟨.dropWait w, rfl, (Option.some.inj h).symm⟩
      · exact .inr ⟨.dropWait w, rfl, (Option.some.inj h).symm⟩
      · cases h

/-- **What one event can do.** -/
inductive Steps (cfg : Config) (s : Server tokio) : Event → Server tokio → Prop
  | asked {i : ℕ} {outside : (question : Question) → question.Reply} {task : Task}
      {question : Question} {next : question.Reply → Handling Unit} (hi : s.tasks[i]? = some task)
      (hrest : task.progress.rest = .ask question next)
      (hadmits : admits s.common.now question (outside question) = true) :
      Steps cfg s (.task i outside) (s.asked cfg i task question next (outside question))
  | accepted {idle deadline : Option ℕ} {log : List Requests.Event} {requests : Requests}
      {queue : List ℕ} {id : ℕ} {quota : Quota tokio}
      (hloop : s.loop = .selecting idle (.accepting deadline))
      (haccept : s.requests.acceptLoop s.queue = (log, requests, queue))
      (hserved : log.getLast? = some (.served id))
      (hquota : dropIdle s.common.quota idle = some quota) :
      Steps cfg s (.loop .next) (s.accept cfg quota requests queue id)
  | beside {event : Event} {s' : Server tokio} (h : Beside s s') : Steps cfg s event s'

/-- A task that asks takes one of the steps. -/
theorem Server.steps_ask (i : ℕ) (outside : (question : Question) → question.Reply) :
    Steps cfg s (.task i outside) (s.ask cfg i outside) := by
  rw [ask]
  split
  · exact .beside (.refl s)
  · rename_i task hi
    split
    · exact .beside (.refl s)
    · rename_i question next hrest
      split_ifs with hadmits
      · exact .asked hi hrest hadmits
      · exact .beside (.refl s)

/-- A turn of the accept loop takes one of the steps. -/
theorem Server.steps_nextRequest {idle : Option ℕ} {next : Next}
    (hloop : s.loop = .selecting idle next) :
    Steps cfg s (.loop .next) (s.nextRequest cfg idle next) := by
  cases next with
  | readGate => exact .beside (.goto _)
  | readClock =>
      rw [nextRequest]
      split_ifs
      · exact .beside (.goto _)
      · exact .beside (.goto _)
  | accepting deadline =>
      rw [nextRequest]
      rcases haccept : s.requests.acceptLoop s.queue with ⟨log, requests, queue⟩
      simp only
      split
      · rename_i id hserved
        cases hquota : dropIdle s.common.quota idle with
        | some quota => exact .accepted hloop haccept hserved hquota
        | none => exact .beside (.refl s)
      · rename_i hnone
        exact .beside ⟨rfl, rfl, rfl, rfl, rfl, .inl rfl, .inl rfl, Nat.le_refl _, rfl,
          .rejected haccept hnone rfl⟩

/-- A move of the accept loop takes one of the steps. -/
theorem Server.steps_advance (move : Move) :
    Steps cfg s (.loop move) (s.advance cfg move) := by
  unfold advance
  split
  · split_ifs
    · exact .beside (.wait rfl _)
    · exact .beside (.goto _)
  · split_ifs
    · exact .beside ⟨rfl, rfl, rfl, rfl, rfl, .inl rfl, .inl rfl, Nat.le_refl _, rfl,
        .shutdown rfl rfl rfl⟩
    · exact .beside (.refl s)
  · simp only
    split_ifs
    · exact .beside (.wait rfl _)
    · exact .beside (.wait rfl _)
  · rename_i idle next hloop
    exact steps_nextRequest hloop
  · exact .beside (.goto _)
  · split_ifs
    · exact .beside (.goto _)
    · exact .beside (.refl s)
  · exact .beside (.goto _)
  · split_ifs
    · exact .beside (.goto _)
    · exact .beside (.refl s)
  · exact .beside (.goto _)
  · exact .beside (.goto _)
  · exact .beside (.refl s)

/-- A step of the router. -/
theorem Beside.route (action : Datagrams.Shared.Action) (haction : ofRouter action = true) :
    Beside s { s with
      common := { s.common with datagrams := s.common.datagrams.step action } } :=
  ⟨rfl, rfl, rfl, rfl, rfl, .inl rfl, .inr ⟨action, haction, rfl⟩, Nat.le_refl _, rfl,
    .same rfl rfl rfl⟩

/-- **Every event is one of the three kinds of steps.** -/
theorem Server.steps (cfg : Config) (s : Server tokio) (event : Event) :
    Steps cfg s event (s.step cfg event) := by
  cases event with
  | task i outside => exact steps_ask i outside
  | loop move => exact steps_advance move
  | arrive =>
      rw [step]
      split_ifs with hroom
      · exact .beside ⟨rfl, rfl, rfl, rfl, rfl, .inl rfl, .inl rfl, Nat.le_refl _, rfl,
          .arrived hroom rfl rfl rfl⟩
      · exact .beside (.refl s)
  | fire =>
      exact .beside ⟨rfl, rfl, rfl, rfl, rfl, .inl rfl, .inl rfl, Nat.le_refl _, rfl,
        .same rfl rfl rfl⟩
  | tick time =>
      exact .beside ⟨rfl, rfl, rfl, rfl, rfl, .inl rfl, .inl rfl, Nat.le_add_right _ _, rfl,
        .same rfl rfl rfl⟩
  | deliver decoded => exact .beside (.route (.deliver decoded) rfl)
  | countDrop k => exact .beside (.route (.countDrop k) rfl)
  | recv i => exact .beside (.route (.recv i) rfl)

/-! ### The tasks -/

/-- **Every task keeps the rule of a request.** -/
def Tasks (cfg : Config) (s : Server tokio) : Prop :=
  ∀ task ∈ s.tasks, Sound Facts.note (May cfg.ctx) (fun facts _ => Settled facts) .new task.progress

section

variable {i : ℕ} {task : Task} {question : Question} {next : question.Reply → Handling Unit}
  {reply : question.Reply}

/-- A task that has been asked: what its run is, and what is known of it. -/
theorem Task.progress_eq (hrest : task.progress.rest = .ask question next) :
    task.progress = ⟨task.progress.asked, .ask question next⟩ := by
  rw [← hrest]

/-- A task asks only what its facts allow. -/
theorem Tasks.may (h : Tasks cfg s) (hi : s.tasks[i]? = some task)
    (hrest : task.progress.rest = .ask question next) : May cfg.ctx task.facts question := by
  have hsound := h task (List.mem_of_getElem? hi)
  rw [task.progress_eq hrest] at hsound
  exact hsound.allowed_next

/-- The task after an answer. -/
def Task.answered (task : Task) (question : Question) (next : question.Reply → Handling Unit)
    (reply : question.Reply) : Task :=
  ⟨task.streamId, task.progress.asked ++ [⟨question, reply⟩], next reply⟩

/-- A reply is added to the facts of the task. -/
@[simp] theorem Task.facts_answered :
    (task.answered question next reply).facts = task.facts.note question reply :=
  learn_concat task.progress.asked question reply

/-- A reply goes to the task that asked. -/
theorem Server.tasks_asked {outside : question.Reply} :
    (s.asked cfg i task question next outside).tasks = s.tasks.set i
      (task.answered question next (s.common.answer cfg task.streamId question outside).1) := rfl

/-- A reply keeps the tasks to their rule. -/
theorem Tasks.asked (h : Tasks cfg s) (hi : s.tasks[i]? = some task)
    (hrest : task.progress.rest = .ask question next) (outside : question.Reply) :
    Tasks cfg (s.asked cfg i task question next outside) := by
  intro task' hmem
  rcases List.mem_or_eq_of_mem_set hmem with hold | rfl
  · exact h task' hold
  · have hsound := h task (List.mem_of_getElem? hi)
    rw [task.progress_eq hrest] at hsound
    exact hsound.answer _

end

/-- A step of the server keeps the tasks to their rule. -/
theorem Tasks.steps (h : Tasks cfg s) (hstep : Steps cfg s event s') : Tasks cfg s' := by
  cases hstep with
  | asked hi hrest _ => exact h.asked hi hrest _
  | accepted _ _ _ _ =>
      intro task hmem
      rcases List.mem_append.mp hmem with hold | hnew
      · exact h task hold
      · rw [List.mem_singleton.mp hnew]
        exact sound_start (keeps_serve cfg.ctx)
  | beside hbeside =>
      rw [Tasks, hbeside.tasks]
      exact h

/-- **Whatever is interleaved**, every task of every run keeps the rule. -/
theorem Tasks.run (tokio : Sync) (cfg : Config) (dropped : UInt64) (events : List Event) :
    Tasks cfg ((Server.new tokio cfg dropped).run cfg events) :=
  History.run_invariant (fun s event h => h.steps (s.steps cfg event))
    (fun _ hmem => absurd hmem List.not_mem_nil) events

/-- **What every step beside such tasks keeps, every run keeps.** -/
theorem Tasks.run_invariant {P : Server tokio → Prop} (dropped : UInt64)
    (hnew : P (Server.new tokio cfg dropped))
    (hstep : ∀ s event, Tasks cfg s → P s → P (s.step cfg event)) (events : List Event) :
    P ((Server.new tokio cfg dropped).run cfg events) :=
  (History.run_invariant (P := fun s => Tasks cfg s ∧ P s)
    (fun s event h => ⟨h.1.steps (s.steps cfg event), hstep s event h.1 h.2⟩)
    ⟨fun _ hmem => absurd hmem List.not_mem_nil, hnew⟩ events).2

/-! ### What the tasks hold -/

/-- **The counts of the quota are what the tasks hold.** -/
structure Held (cfg : Config) (s : Server tokio) : Prop where
  quota : s.common.quota.Inv cfg.maxTargetsPerConn
  slots : s.common.quota.slots = Ledger.total (fun task => task.facts.slots) s.tasks
  pendings : s.common.quota.pendings = Ledger.total (fun task => task.facts.pendings) s.tasks
  releasing : s.common.quota.releasing = Ledger.total (fun task => task.facts.releasing) s.tasks

/-- The counts a wait does not touch. -/
theorem counts_ofWaits {quota : Quota tokio} {event : QuotaEvent} (h : ofWaits event = true) :
    (quota.step event).slots = quota.slots ∧ (quota.step event).pendings = quota.pendings ∧
      (quota.step event).releasing = quota.releasing := by
  cases event with
  | wait => exact ⟨rfl, rfl, rfl⟩
  | advance w =>
      rw [Quota.step]
      split
      · exact ⟨rfl, rfl, rfl⟩
      · rename_i phase hw
        cases phase with
        | created | readLive | readPending =>
            rw [Quota.waitUntilIdle]
            split_ifs <;> exact ⟨rfl, rfl, rfl⟩
        | park | parked | done | dropped => exact ⟨rfl, rfl, rfl⟩
  | dropWait w =>
      rw [Quota.step]
      split
      · exact ⟨rfl, rfl, rfl⟩
      · rename_i phase hw
        cases phase <;> exact ⟨rfl, rfl, rfl⟩
  | acquire | enter | dropSlot | dropPending | announce => cases h

section

variable {i : ℕ} {task : Task} {question : Question} (next : question.Reply → Handling Unit)

/-- What the tasks hold together moves with the task that is asked. -/
theorem Server.total_asked (cfg : Config) (share : Facts → ℕ) (hi : s.tasks[i]? = some task)
    (outside : question.Reply) :
    Ledger.total (fun task => share task.facts) (s.asked cfg i task question next outside).tasks +
        share task.facts =
      Ledger.total (fun task => share task.facts) s.tasks +
        share (task.facts.note question
          (s.common.answer cfg task.streamId question outside).1) := by
  rw [tasks_asked, Ledger.total_set _ hi, Task.facts_answered]

/-- A question moves the counts as it moves what its task holds. -/
theorem counts_asked (hmay : May cfg.ctx task.facts question) (outside : question.Reply)
    (hslots : task.facts.slots ≤ s.common.quota.slots)
    (hpendings : task.facts.pendings ≤ s.common.quota.pendings)
    (hreleasing : task.facts.releasing ≤ s.common.quota.releasing) :
    let asked := s.asked cfg i task question next outside
    let facts := task.facts.note question (s.common.answer cfg task.streamId question outside).1
    asked.common.quota.slots + task.facts.slots = s.common.quota.slots + facts.slots ∧
      asked.common.quota.pendings + task.facts.pendings =
        s.common.quota.pendings + facts.pendings ∧
      asked.common.quota.releasing + task.facts.releasing =
        s.common.quota.releasing + facts.releasing := by
  simp only [Server.asked]
  cases question with
  | acquire =>
      obtain ⟨huntaken, -⟩ := hmay
      have hzero : task.facts.slots = 0 := by rw [Facts.slots, huntaken]
      rw [hzero]
      rcases hacquire : s.common.quota.acquire with - | quota
      · simp only [Common.answer, Quota.step, hacquire]
        exact ⟨rfl, rfl, rfl⟩
      · obtain ⟨permits, -, rfl⟩ := Option.map_eq_some_iff.mp hacquire
        simp only [Common.answer, Quota.step, hacquire]
        exact ⟨rfl, rfl, rfl⟩
  | dropSlot =>
      obtain ⟨hheld, -, hquiet, -⟩ := hmay
      have hone : task.facts.slots = 1 := by rw [Facts.slots, hheld]
      have hzero : task.facts.releasing = 0 := by rw [Facts.releasing, hquiet]; rfl
      have hpos : s.common.quota.slots ≠ 0 := by omega
      simp only [Common.answer, Quota.step, Quota.dropSlot, if_neg hpos]
      refine ⟨?_, rfl, ?_⟩
      · change s.common.quota.slots - 1 + task.facts.slots = s.common.quota.slots + 0
        omega
      · rw [hzero]
        rfl
  | dropPending =>
      have hone : task.facts.pendings = 1 := by rw [Facts.pendings, hmay.pending]; rfl
      have hzero : task.facts.releasing = 0 := by rw [Facts.releasing, hmay.announcing]; rfl
      have hpos : s.common.quota.pendings ≠ 0 := by omega
      simp only [Common.answer, Quota.step, Quota.dropPending, if_neg hpos]
      refine ⟨rfl, ?_, ?_⟩
      · change s.common.quota.pendings - 1 + task.facts.pendings = s.common.quota.pendings + 0
        omega
      · rw [hzero]
        rfl
  | announce =>
      replace hmay : task.facts.announcing = true := hmay
      have hone : task.facts.releasing = 1 := by rw [Facts.releasing, hmay]; rfl
      have hpos : s.common.quota.releasing ≠ 0 := by omega
      simp only [Common.answer, Quota.step, Quota.announce, if_neg hpos]
      refine ⟨rfl, rfl, ?_⟩
      change s.common.quota.releasing - 1 + task.facts.releasing = s.common.quota.releasing + 0
      omega
  | now | readRequest _ | stopReceiving _ | reset _ | finish | fail _ | respond _ _
  | recordAuthFailure _ | close _ | mark | admitConfiguredStreams | clearFailures _ | countTunnel
  | claimDatagrams | lookup _ _ _ | holdsAddress _ | connect _ _ | bind _ | abortTarget | relay _
  | dropReceiver _ => exact ⟨rfl, rfl, rfl⟩

/-- Every question leaves the quota where it was, or takes it one step on beside its waits. -/
theorem quota_asked (outside : question.Reply) :
    (s.asked cfg i task question next outside).common.quota = s.common.quota ∨
      ∃ event, ofWaits event = false ∧
        (s.asked cfg i task question next outside).common.quota = s.common.quota.step event := by
  cases question with
  | acquire => exact .inr ⟨.acquire, rfl, rfl⟩
  | dropSlot => exact .inr ⟨.dropSlot, rfl, rfl⟩
  | dropPending => exact .inr ⟨.dropPending, rfl, rfl⟩
  | announce => exact .inr ⟨.announce, rfl, rfl⟩
  | now | readRequest _ | stopReceiving _ | reset _ | finish | fail _ | respond _ _
  | recordAuthFailure _ | close _ | mark | admitConfiguredStreams | clearFailures _ | countTunnel
  | claimDatagrams | lookup _ _ _ | holdsAddress _ | connect _ _ | bind _ | abortTarget | relay _
  | dropReceiver _ => exact .inl rfl

end

/-- A new server holds nothing. -/
theorem Held.new (tokio : Sync) (cfg : Config) (dropped : UInt64) :
    Held cfg (Server.new tokio cfg dropped) :=
  ⟨Quota.inv_new _, rfl, rfl, rfl⟩

/-- A step of the server keeps the account of what is held. -/
theorem Held.steps (h : Held cfg s) (htasks : Tasks cfg s) (hstep : Steps cfg s event s') :
    Held cfg s' := by
  cases hstep with
  | @asked i outside task question next hi hrest _ =>
      have hcounts := counts_asked (i := i) next (htasks.may hi hrest) (outside question)
        (h.slots ▸ Ledger.share_le_total (fun task : Task => task.facts.slots) hi)
        (h.pendings ▸ Ledger.share_le_total (fun task : Task => task.facts.pendings) hi)
        (h.releasing ▸ Ledger.share_le_total (fun task : Task => task.facts.releasing) hi)
      obtain ⟨hslots, hpendings, hreleasing⟩ := hcounts
      have htotal := fun share : Facts → ℕ =>
        Server.total_asked next cfg share hi (outside question)
      refine ⟨?_, ?_, ?_, ?_⟩
      · rcases quota_asked next (outside question) with heq | ⟨event, -, heq⟩
        · rw [heq]
          exact h.quota
        · rw [heq]
          exact h.quota.step event
      · have hsame := h.slots
        have hmoved := htotal Facts.slots
        omega
      · have hsame := h.pendings
        have hmoved := htotal Facts.pendings
        omega
      · have hsame := h.releasing
        have hmoved := htotal Facts.releasing
        omega
  | @accepted idle deadline log requests queue id quota _ _ _ hquota =>
      have hinv : quota.Inv cfg.maxTargetsPerConn := by
        rcases dropIdle_eq_some hquota with rfl | ⟨event, -, rfl⟩
        · exact h.quota
        · exact h.quota.step event
      have hcounts : quota.slots = s.common.quota.slots ∧
          quota.pendings = s.common.quota.pendings ∧
          quota.releasing = s.common.quota.releasing := by
        rcases dropIdle_eq_some hquota with rfl | ⟨event, hwait, rfl⟩
        · exact ⟨rfl, rfl, rfl⟩
        · exact counts_ofWaits hwait
      refine ⟨hinv.step .enter, ?_, ?_, ?_⟩
      · simp only [Server.accept, Ledger.total_concat, ← h.slots]
        exact hcounts.1
      · simp only [Server.accept, Ledger.total_concat, ← h.pendings]
        exact congrArg (· + 1) hcounts.2.1
      · simp only [Server.accept, Ledger.total_concat, ← h.releasing]
        exact hcounts.2.2
  | beside hbeside =>
      refine ⟨?_, ?_, ?_, ?_⟩
      · rcases hbeside.quota with heq | ⟨event, -, heq⟩
        · exact heq ▸ h.quota
        · exact heq ▸ h.quota.step event
      all_goals
        rw [hbeside.tasks]
        rcases hbeside.quota with heq | ⟨event, hwait, heq⟩
      · exact heq ▸ h.slots
      · exact heq ▸ (counts_ofWaits hwait).1.trans h.slots
      · exact heq ▸ h.pendings
      · exact heq ▸ (counts_ofWaits hwait).2.1.trans h.pendings
      · exact heq ▸ h.releasing
      · exact heq ▸ (counts_ofWaits hwait).2.2.trans h.releasing

/-- **After every run** the counts of the quota are what the tasks hold. -/
theorem Held.run (tokio : Sync) (cfg : Config) (dropped : UInt64) (events : List Event) :
    Held cfg ((Server.new tokio cfg dropped).run cfg events) :=
  Tasks.run_invariant dropped (Held.new tokio cfg dropped)
    (fun s event htasks h => h.steps htasks (s.steps cfg event)) events

end Serving

end Tunnel

end Volto
