import Volto.Tunnel.Served

/-!
# The End of a Drain

A connection that is told to shut down sends its GOAWAY, waits until its quota is idle, and ends.
Streams are accepted in the order of their ids, so the tasks are those of the first streams of the
connection, and the GOAWAY names the next one. Each task has its guard until its request is over,
so a quota that is idle has none left.

## Main results

* `Streams.run`: which streams have a task.
* `Draining.run`: what the loop has found when it is over.
* `drain_cuts_nothing`: what is left when a drain is over.
-/

namespace Volto

namespace Tunnel

namespace Serving

open Asking Handler

variable {tokio : Sync} {cfg : Config} {s s' : Server tokio} {event : Event}

/-! ### Accepting -/

/-- Without a GOAWAY the next request is served. -/
theorem acceptLoop_open {r : Requests} (h : r.goingAway = none) (id : ℕ) (queue : List ℕ) :
    r.acceptLoop (id :: queue) = ([.served id], { r with lastAccepted := some id }, queue) := by
  rw [Requests.acceptLoop, h]
  rfl

/-- Behind a GOAWAY the requests from its identifier on are rejected. -/
theorem acceptLoop_closed {r : Requests} {identifier : ℕ} (h : r.goingAway = some identifier)
    {queue : List ℕ} (hall : ∀ id ∈ queue, identifier ≤ id) :
    r.acceptLoop queue =
      (queue.map fun id => .rejected id .h3RequestRejected, r, []) := by
  induction queue with
  | nil => rfl
  | cons id queue ih =>
      have hle := hall id List.mem_cons_self
      rw [Requests.acceptLoop, ih fun id hmem => hall id (List.mem_cons_of_mem _ hmem), h]
      simp [hle]

/-- The id of the next stream. -/
theorem nextRequestId_eq (n : ℕ) (hroom : requestStreamStep * (n - 1) ≤ varintMax) :
    nextRequestId (if n = 0 then none else some (requestStreamStep * (n - 1))) =
      min (requestStreamStep * n) varintMax := by
  cases n with
  | zero => rfl
  | succ n =>
      have hfits : requestStreamStep * n + requestStreamStep ≤ u64Max := by
        rw [Nat.add_sub_cancel] at hroom
        simp only [requestStreamStep, u64Max, varintMax] at *
        omega
      rw [if_neg (Nat.succ_ne_zero n), Nat.add_sub_cancel, nextRequestId]
      simp only [Nat.min_eq_left hfits, Nat.mul_succ]

/-- **The streams that have been accepted** are the first ones. Until a GOAWAY all the others are
waiting, and from then on none of them is accepted. -/
structure Streams (s : Server tokio) : Prop where
  ids : ∀ i task, s.tasks[i]? = some task → task.streamId = requestStreamStep * i
  room : ∀ k < s.arrived, requestStreamStep * k ≤ varintMax
  tasks_le : s.tasks.length ≤ s.arrived
  last : s.requests.lastAccepted =
    if s.tasks.length = 0 then none else some (requestStreamStep * (s.tasks.length - 1))
  waiting : s.requests.goingAway = none → s.queue =
    (List.range' s.tasks.length (s.arrived - s.tasks.length)).map (requestStreamStep * ·)
  refused : ∀ identifier, s.requests.goingAway = some identifier →
    identifier = min (requestStreamStep * s.tasks.length) varintMax ∧
      ∀ id ∈ s.queue, identifier ≤ id

/-- A new server has no streams to account for. -/
theorem Streams.new (tokio : Sync) (cfg : Config) (dropped : UInt64) :
    Streams (Server.new tokio cfg dropped) where
  ids i task h := by simp [Server.new] at h
  room k h := absurd h (Nat.not_lt_zero k)
  tasks_le := Nat.le_refl _
  last := rfl
  waiting _ := rfl
  refused identifier h := by cases h

/-- The identifier that a shutdown records is the id of the next stream. -/
theorem Streams.identifier_eq (h : Streams s) :
    s.requests.identifier = min (requestStreamStep * s.tasks.length) varintMax := by
  have hnext : nextRequestId s.requests.lastAccepted =
      min (requestStreamStep * s.tasks.length) varintMax := by
    rw [h.last]
    refine nextRequestId_eq _ ?_
    rcases Nat.eq_zero_or_pos s.tasks.length with hzero | hpos
    · rw [hzero]
      exact Nat.zero_le _
    · exact h.room _ (by have := h.tasks_le; omega)
  rw [Requests.identifier]
  cases hgoing : s.requests.goingAway with
  | none => exact hnext
  | some sent =>
      rw [(h.refused sent hgoing).1, hnext]
      exact Nat.min_self _

/-- Whatever waits is no older than the next stream. -/
theorem Streams.le_of_mem_queue (h : Streams s) {id : ℕ} (hmem : id ∈ s.queue) :
    min (requestStreamStep * s.tasks.length) varintMax ≤ id := by
  cases hgoing : s.requests.goingAway with
  | none =>
      rw [h.waiting hgoing] at hmem
      obtain ⟨k, hk, rfl⟩ := List.mem_map.mp hmem
      have hle := (List.mem_range'_1.mp hk).1
      exact (Nat.min_le_left _ _).trans (Nat.mul_le_mul_left _ hle)
  | some identifier =>
      obtain ⟨heq, hall⟩ := h.refused identifier hgoing
      exact heq ▸ hall id hmem

/-- A step beside the requests keeps the account of the streams. -/
theorem Streams.beside (h : Streams s) (hbeside : Beside s s') : Streams s' := by
  have hids : ∀ i task, s'.tasks[i]? = some task → task.streamId = requestStreamStep * i := by
    rw [hbeside.tasks]
    exact h.ids
  cases hbeside.streams with
  | same hrequests hqueue harrived =>
      refine ⟨hids, ?_, ?_, ?_, ?_, ?_⟩
      all_goals simp only [hbeside.tasks, hrequests, hqueue, harrived]
      · exact h.room
      · exact h.tasks_le
      · exact h.last
      · exact h.waiting
      · exact h.refused
  | arrived hroom hrequests hqueue harrived =>
      refine ⟨hids, ?_, ?_, ?_, ?_, ?_⟩
      all_goals simp only [hbeside.tasks, hrequests, hqueue, harrived]
      · intro k hk
        rcases Nat.lt_succ_iff_lt_or_eq.mp hk with hlt | rfl
        · exact h.room k hlt
        · exact hroom
      · exact h.tasks_le.trans (Nat.le_succ _)
      · exact h.last
      · intro hgoing
        have hle := h.tasks_le
        have hsplit : s.arrived + 1 - s.tasks.length = s.arrived - s.tasks.length + 1 := by omega
        have hend : s.tasks.length + 1 * (s.arrived - s.tasks.length) = s.arrived := by omega
        rw [h.waiting hgoing, hsplit, List.range'_concat, List.map_append, hend]
        rfl
      · intro identifier hgoing
        obtain ⟨heq, hall⟩ := h.refused identifier hgoing
        refine ⟨heq, fun id hmem => ?_⟩
        rcases List.mem_append.mp hmem with hold | hnew
        · exact hall id hold
        · rw [List.mem_singleton.mp hnew, heq]
          exact (Nat.min_le_left _ _).trans (Nat.mul_le_mul_left _ h.tasks_le)
  | shutdown hrequests hqueue harrived =>
      refine ⟨hids, ?_, ?_, ?_, ?_, ?_⟩
      all_goals simp only [hbeside.tasks, hrequests, hqueue, harrived]
      · exact h.room
      · exact h.tasks_le
      · exact h.last
      · intro hgoing
        cases hgoing
      · intro identifier hgoing
        obtain rfl := Option.some.inj hgoing
        exact ⟨h.identifier_eq, fun id hmem => h.identifier_eq ▸ h.le_of_mem_queue hmem⟩
  | @rejected log haccept hnone harrived =>
      cases hgoing : s.requests.goingAway with
      | none =>
          cases hqueue : s.queue with
          | nil =>
              rw [hqueue] at haccept
              simp only [Requests.acceptLoop, Prod.mk.injEq] at haccept
              obtain ⟨-, hrequests, hnil⟩ := haccept
              refine ⟨hids, ?_, ?_, ?_, ?_, ?_⟩
              all_goals simp only [hbeside.tasks, ← hrequests, ← hnil, harrived]
              · exact h.room
              · exact h.tasks_le
              · exact h.last
              · exact hqueue ▸ h.waiting
              · exact hqueue ▸ h.refused
          | cons id queue =>
              rw [hqueue, acceptLoop_open hgoing, Prod.mk.injEq] at haccept
              obtain ⟨rfl, -⟩ := haccept
              exact absurd rfl (hnone id)
      | some identifier =>
          rw [acceptLoop_closed hgoing (h.refused identifier hgoing).2] at haccept
          simp only [Prod.mk.injEq] at haccept
          obtain ⟨-, hrequests, hnil⟩ := haccept
          refine ⟨hids, ?_, ?_, ?_, ?_, ?_⟩
          all_goals simp only [hbeside.tasks, ← hrequests, ← hnil, harrived]
          · exact h.room
          · exact h.tasks_le
          · exact h.last
          · intro hopen
            rw [hgoing] at hopen
            cases hopen
          · exact fun identifier hgoing => ⟨(h.refused identifier hgoing).1, by simp⟩

/-- What is accepted is the next stream, and there was no GOAWAY. -/
theorem Streams.accepted (h : Streams s) {log : List Requests.Event} {requests : Requests}
    {queue : List ℕ} {id : ℕ}
    (haccept : s.requests.acceptLoop s.queue = (log, requests, queue))
    (hserved : log.getLast? = some (.served id)) :
    s.requests.goingAway = none ∧ s.queue = id :: queue ∧
      requests = { s.requests with lastAccepted := some id } := by
  cases hgoing : s.requests.goingAway with
  | none =>
      cases hqueue : s.queue with
      | nil =>
          rw [hqueue, Requests.acceptLoop, Prod.mk.injEq] at haccept
          rw [← haccept.1] at hserved
          cases hserved
      | cons first rest =>
          rw [hqueue, acceptLoop_open hgoing] at haccept
          simp only [Prod.mk.injEq] at haccept
          obtain ⟨rfl, rfl, rfl⟩ := haccept
          obtain rfl : first = id := by simpa using hserved
          exact ⟨rfl, rfl, rfl⟩
  | some identifier =>
      rw [acceptLoop_closed hgoing (h.refused identifier hgoing).2, Prod.mk.injEq] at haccept
      obtain ⟨rfl, -⟩ := haccept
      rw [List.getLast?_map] at hserved
      obtain ⟨_, -, heq⟩ := Option.map_eq_some_iff.mp hserved
      cases heq

/-- A step of the server keeps the account of the streams. -/
theorem Streams.steps (h : Streams s) (hstep : Steps cfg s event s') : Streams s' := by
  cases hstep with
  | @asked i outside task question next hi _ _ =>
      refine ⟨fun j other hj => ?_, h.room, ?_, ?_, ?_, ?_⟩
      · rw [Server.tasks_asked] at hj
        rcases (Slots.getElem?_set hi).mp hj with ⟨rfl, rfl⟩ | ⟨-, hj⟩
        · exact h.ids j task hi
        · exact h.ids j other hj
      all_goals simp only [Server.asked, List.length_set]
      · exact h.tasks_le
      · exact h.last
      · exact h.waiting
      · exact h.refused
  | @accepted idle deadline log requests queue id quota _ haccept hserved _ =>
      obtain ⟨hgoing, hqueue, rfl⟩ := h.accepted haccept hserved
      have hwaiting := h.waiting hgoing
      have hle := h.tasks_le
      rw [hqueue] at hwaiting
      have hlt : s.tasks.length < s.arrived := by
        by_contra hnot
        rw [Nat.sub_eq_zero_of_le (Nat.le_of_not_lt hnot)] at hwaiting
        cases hwaiting
      have hsplit : s.arrived - s.tasks.length = s.arrived - (s.tasks.length + 1) + 1 := by omega
      rw [hsplit, List.range'_succ, List.map_cons] at hwaiting
      obtain ⟨rfl, hrest⟩ := List.cons.inj hwaiting
      refine ⟨fun j other hj => ?_, h.room, ?_, ?_, ?_, ?_⟩
      · rcases Slots.getElem?_concat.mp hj with hj | ⟨rfl, rfl⟩
        · exact h.ids j other hj
        · rfl
      all_goals simp only [Server.accept, List.length_append, List.length_singleton]
      · exact hlt
      · simp
      · exact fun _ => hrest
      · intro identifier hsome
        rw [hgoing] at hsome
        cases hsome
  | beside hbeside => exact h.beside hbeside

/-- **After every run** the streams with a task are the first ones. -/
theorem Streams.run (tokio : Sync) (cfg : Config) (dropped : UInt64) (events : List Event) :
    Streams ((Server.new tokio cfg dropped).run cfg events) :=
  History.run_invariant (fun s event h => h.steps (s.steps cfg event))
    (Streams.new tokio cfg dropped) events

/-- **The GOAWAY parts the streams**: those that it leaves out are the ones with a task. -/
theorem Streams.task_iff (h : Streams s) {identifier : ℕ}
    (hgoing : s.requests.goingAway = some identifier) {k : ℕ} (hk : k < s.arrived) :
    requestStreamStep * k < identifier ↔
      ∃ task, s.tasks[k]? = some task ∧ task.streamId = requestStreamStep * k := by
  have hroom := h.room k hk
  have htasks : requestStreamStep * k < identifier ↔ k < s.tasks.length := by
    rw [(h.refused identifier hgoing).1]
    simp only [requestStreamStep, varintMax] at hroom ⊢
    omega
  rw [htasks]
  constructor
  · intro hlt
    exact ⟨s.tasks[k], List.getElem?_eq_getElem hlt, h.ids k _ (List.getElem?_eq_getElem hlt)⟩
  · rintro ⟨task, htask, -⟩
    exact (List.getElem?_eq_some_iff.mp htask).1

/-! ### The end -/

/-- The loop is past its GOAWAY. -/
def Loop.draining : Loop → Bool
  | .selecting (some _) _ | .announcing _ | .readLive | .readPending => true
  | .over .drained | .over .finished => true
  | _ => false

/-- The loop has found nothing left to serve. -/
def Loop.idle : Loop → Bool
  | .over .drained | .over .finished => true
  | _ => false

/-- A loop that waits for the handlers is draining. -/
theorem draining_of_idle {loop : Loop} (h : loop.idle = true) : loop.draining = true := by
  unfold Loop.idle at h
  split at h
  · rfl
  · rfl
  · cases h

/-- No more handlers are pending than there are tasks. -/
theorem total_pendings_le (tasks : List Task) :
    Ledger.total (fun task => task.facts.pendings) tasks ≤ tasks.length := by
  induction tasks with
  | nil => exact Nat.le_refl _
  | cons task tasks ih =>
      rw [Ledger.total_cons, List.length_cons, Facts.pendings]
      have := Bool.toNat_le task.facts.pending
      omega

/-- A count of requests at zero is that none has its guard. -/
theorem Held.pending_eq_false (h : Held cfg s) (hfew : s.tasks.length < UInt32.size)
    (hzero : ¬0 < s.common.quota.pending) : ∀ task ∈ s.tasks, task.facts.pending = false := by
  have hle := total_pendings_le s.tasks
  rw [← h.pendings] at hle
  rw [h.quota.pending_pos (hle.trans_lt hfew), h.pendings] at hzero
  intro task hmem
  obtain ⟨i, hi⟩ := List.getElem?_of_mem hmem
  have hshare := Ledger.share_le_total (fun task : Task => task.facts.pendings) hi
  cases hpending : task.facts.pending with
  | false => rfl
  | true =>
      have hone : task.facts.pendings = 1 := by rw [Facts.pendings, hpending]; rfl
      omega

/-- A guard that was given back is not taken again. -/
theorem pending_note {facts : Facts} (h : facts.pending = false) (question : Question)
    (reply : question.Reply) : (facts.note question reply).pending = false := by
  cases question <;> first | exact h | rfl

/-- **Where the loop stands**: its wait has not completed, past its GOAWAY there is one, and where
it has found nothing left to serve there was nothing. -/
structure Draining (s : Server tokio) : Prop where
  waiting : ∀ w next, s.loop = .selecting (some w) next →
    s.common.quota.waits[w]? ≠ some .done
  going : s.loop.draining = true → s.requests.goingAway.isSome = true
  idle : s.loop.idle = true → s.tasks.length < UInt32.size →
    ∀ task ∈ s.tasks, task.facts.pending = false

/-- A new server is not draining. -/
theorem Draining.new (tokio : Sync) (cfg : Config) (dropped : UInt64) :
    Draining (Server.new tokio cfg dropped) :=
  ⟨by rintro w next ⟨⟩, by rintro ⟨⟩, by rintro ⟨⟩⟩

/-- A step that the loop and the quota have no part in. -/
theorem Draining.same (h : Draining s) (hloop : s'.loop = s.loop)
    (hquota : s'.common.quota = s.common.quota)
    (hgoing : s'.requests.goingAway = s.requests.goingAway) (htasks : s'.tasks = s.tasks) :
    Draining s' := by
  refine ⟨?_, ?_, ?_⟩
  · rw [hloop, hquota]
    exact h.waiting
  · rw [hloop, hgoing]
    exact h.going
  · rw [hloop, htasks]
    exact h.idle

/-- The loop only goes on. -/
theorem draining_goto {loop : Loop}
    (hwaiting : ∀ w next, loop = .selecting (some w) next →
      s.common.quota.waits[w]? ≠ some .done)
    (hgoing : loop.draining = true → s.requests.goingAway.isSome = true)
    (hidle : loop.idle = false) : Draining { s with loop := loop } :=
  ⟨hwaiting, hgoing, fun hover => absurd (hover.symm.trans hidle) (by decide)⟩

/-- A task that has its reply keeps the account of the drain. -/
theorem Draining.asked (h : Draining s) {i : ℕ} {task : Task} {question : Question}
    {next : question.Reply → Handling Unit} (hi : s.tasks[i]? = some task)
    (outside : question.Reply) : Draining (s.asked cfg i task question next outside) := by
  refine ⟨fun w next' hselecting hdone => ?_, h.going, fun hidle hfew => ?_⟩
  · refine h.waiting w next' hselecting ?_
    rcases quota_asked next outside with heq | ⟨event, hbeside, heq⟩
    · rwa [heq] at hdone
    · rw [heq] at hdone
      refine Quota.step_beside ?_ (by decide) (by decide) hdone
      rintro rfl
      cases hbeside
  · rw [Server.tasks_asked, List.length_set] at hfew
    have hnone := h.idle hidle hfew
    intro other hmem
    rw [Server.tasks_asked] at hmem
    rcases List.mem_or_eq_of_mem_set hmem with hold | rfl
    · exact hnone other hold
    · rw [Task.facts_answered]
      exact pending_note (hnone task (List.mem_of_getElem? hi)) question _

/-- What the accept loop does leaves the GOAWAY that was sent. -/
theorem acceptLoop_goingAway (r : Requests) (queue : List ℕ) :
    (r.acceptLoop queue).2.1.goingAway = r.goingAway := by
  induction queue with
  | nil => rfl
  | cons id queue ih =>
      rw [Requests.acceptLoop]
      split_ifs
      · exact ih
      · rfl

/-- A turn of the accept loop keeps the account of the drain. -/
theorem Draining.nextRequest (h : Draining s) {idle : Option ℕ} {next : Next}
    (hloop : s.loop = .selecting idle next) : Draining (s.nextRequest cfg idle next) := by
  have hgoing : ∀ next', Loop.draining (.selecting idle next') = true →
      s.requests.goingAway.isSome = true := by
    intro next' hdraining
    refine h.going ?_
    rw [hloop]
    cases idle with
    | none => cases hdraining
    | some w => rfl
  have hwaiting : ∀ next' w next'', Loop.selecting idle next' = .selecting (some w) next'' →
      s.common.quota.waits[w]? ≠ some .done := by
    intro next' w next'' heq
    obtain ⟨rfl, -⟩ := Loop.selecting.inj heq
    exact h.waiting w next hloop
  cases next with
  | readGate => exact draining_goto (hwaiting _) (hgoing _) rfl
  | readClock =>
      rw [Server.nextRequest]
      split_ifs
      · exact draining_goto (by rintro w next ⟨⟩) (by rintro ⟨⟩) rfl
      · exact draining_goto (hwaiting _) (hgoing _) rfl
  | accepting deadline =>
      rw [Server.nextRequest]
      rcases haccept : s.requests.acceptLoop s.queue with ⟨log, requests, queue⟩
      have hsame : requests.goingAway = s.requests.goingAway := by
        rw [← acceptLoop_goingAway s.requests s.queue, haccept]
      simp only
      split
      · split
        · exact ⟨by rintro w next ⟨⟩, by rintro ⟨⟩, by rintro ⟨⟩⟩
        · exact h
      · exact h.same rfl rfl hsame rfl

/-- A step of the accept loop keeps the account of the drain. -/
theorem Draining.advance (h : Draining s) (hheld : Held cfg s) (move : Move) :
    Draining (s.advance cfg move) := by
  unfold Server.advance
  split
  · split_ifs with hgoing
    · refine ⟨fun w next hselecting hdone => ?_, fun _ => hgoing, by rintro ⟨⟩⟩
      obtain ⟨heq, -⟩ := Loop.selecting.inj hselecting
      obtain rfl := Option.some.inj heq
      rcases Slots.getElem?_concat.mp hdone with hold | ⟨-, hnew⟩
      · exact absurd (List.getElem?_eq_some_iff.mp hold).1 (Nat.lt_irrefl _)
      · cases hnew
    · exact draining_goto (by rintro w next ⟨⟩) (by rintro ⟨⟩) rfl
  · split_ifs
    · exact ⟨by rintro w next ⟨⟩, fun _ => rfl, by rintro ⟨⟩⟩
    · exact h
  · rename_i w next hloop
    have hgoing : s.requests.goingAway.isSome = true := h.going (by rw [hloop]; rfl)
    simp only
    split_ifs with hdone
    · refine ⟨by rintro w next ⟨⟩, fun _ => hgoing, fun _ hfew => ?_⟩
      have hcompletes : s.common.quota.Completes w := ⟨h.waiting w next hloop, hdone⟩
      exact hheld.pending_eq_false hfew hcompletes.readPending.2
    · refine ⟨fun w' next' hselecting => ?_, fun _ => hgoing, by rintro ⟨⟩⟩
      obtain ⟨heq, -⟩ := Loop.selecting.inj hselecting
      obtain rfl := Option.some.inj heq
      exact hdone
  · rename_i idle next hloop
    exact h.nextRequest hloop
  · exact draining_goto (by rintro w next ⟨⟩) (by rintro ⟨⟩) rfl
  · rename_i idle deadline hloop
    split_ifs
    · refine draining_goto (fun w next heq => ?_) (fun hdraining => h.going ?_) rfl
      · obtain ⟨rfl, -⟩ := Loop.selecting.inj heq
        exact h.waiting w _ hloop
      · rw [hloop]
        cases idle with
        | none => cases hdraining
        | some w => rfl
    · exact h
  · rename_i deadline ok hloop
    have hgoing : s.requests.goingAway.isSome = true := h.going (by rw [hloop]; rfl)
    cases ok with
    | true => exact draining_goto (by rintro w next ⟨⟩) (fun _ => hgoing) rfl
    | false => exact draining_goto (by rintro w next ⟨⟩) (fun _ => hgoing) rfl
  · rename_i deadline hloop
    have hgoing : s.requests.goingAway.isSome = true := h.going (by rw [hloop]; rfl)
    split_ifs
    · exact draining_goto (by rintro w next ⟨⟩) (fun _ => hgoing) rfl
    · exact h
  · rename_i hloop
    have hgoing : s.requests.goingAway.isSome = true := h.going (by rw [hloop]; rfl)
    split_ifs
    · exact draining_goto (by rintro w next ⟨⟩) (fun _ => hgoing) rfl
    · exact draining_goto (by rintro w next ⟨⟩) (fun _ => hgoing) rfl
  · rename_i hloop
    have hgoing : s.requests.goingAway.isSome = true := h.going (by rw [hloop]; rfl)
    split_ifs with hpending
    · exact draining_goto (by rintro w next ⟨⟩) (fun _ => hgoing) rfl
    · exact ⟨by rintro w next ⟨⟩, fun _ => hgoing, fun _ hfew =>
        hheld.pending_eq_false hfew hpending⟩
  · exact h

/-- **Step lemma**: an event keeps the account of the drain. -/
theorem Draining.step (h : Draining s) (hheld : Held cfg s) (event : Event) :
    Draining (s.step cfg event) := by
  cases event with
  | task i outside =>
      rw [Server.step, Server.ask]
      split
      · exact h
      · rename_i task hi
        split
        · exact h
        · split_ifs
          · exact h.asked hi _
          · exact h
  | loop move => exact h.advance hheld move
  | arrive =>
      rw [Server.step]
      split_ifs
      · exact h.same rfl rfl rfl rfl
      · exact h
  | fire | tick _ | deliver _ | countDrop _ | recv _ =>
      exact h.same rfl rfl rfl rfl

/-- **Run lemma**: the account of the drain holds in every interleaving. -/
theorem Draining.run (tokio : Sync) (cfg : Config) (dropped : UInt64) (events : List Event) :
    Draining ((Server.new tokio cfg dropped).run cfg events) :=
  (Tasks.run_invariant (P := fun s => Held cfg s ∧ Draining s) dropped
    ⟨Held.new tokio cfg dropped, Draining.new tokio cfg dropped⟩
    (fun s event htasks h =>
      ⟨h.1.steps htasks (s.steps cfg event), h.2.step h.1 event⟩) events).2

/-- **A drain cuts nothing.** The streams that a GOAWAY leaves out are the ones with a task. Where
the loop has ended because nothing was left, there was a GOAWAY, and every request that was accepted
is over: it was answered, unless it could not be read or has closed the connection, and it holds
neither a slot nor the datagrams of its stream. -/
theorem drain_cuts_nothing (tokio : Sync) (cfg : Config) (dropped : UInt64)
    (events : List Event) :
    let s := (Server.new tokio cfg dropped).run cfg events
    (∀ identifier, s.requests.goingAway = some identifier → ∀ k < s.arrived,
      (requestStreamStep * k < identifier ↔
        ∃ task, s.tasks[k]? = some task ∧ task.streamId = requestStreamStep * k)) ∧
    (s.loop.idle = true → s.requests.goingAway.isSome = true ∧
      (s.tasks.length < UInt32.size →
        ∀ task ∈ s.tasks, task.facts.pending = false ∧ Ended task.facts)) := by
  intro s
  have hdraining : Draining s := Draining.run tokio cfg dropped events
  refine ⟨fun identifier hgoing k hk => ?_, fun hidle => ⟨?_, fun hfew task hmem => ?_⟩⟩
  · exact (Streams.run tokio cfg dropped events).task_iff hgoing hk
  · exact hdraining.going (draining_of_idle hidle)
  · have hgone := hdraining.idle hidle hfew task hmem
    have hguarded : Guarded cfg.ctx task.facts :=
      (Tasks.run tokio cfg dropped events task hmem).invariant (guarded_new cfg.ctx)
        fun facts question reply h hmay => guarded_note h hmay reply
    exact ⟨hgone, hguarded.ended hgone⟩

/-- What comes of a question when nobody does anything: its deadline passes. -/
def unanswered : (question : Question) → question.Reply
  | .now => 0
  | .readRequest _ | .respond _ _ | .claimDatagrams | .lookup _ _ _ | .connect _ _ => none
  | .recordAuthFailure _ | .mark | .acquire | .holdsAddress _ => false
  | .bind _ => .ok ()
  | .stopReceiving _ | .reset _ | .finish | .fail _ | .close _ | .admitConfiguredStreams
  | .clearFailures _ | .countTunnel | .abortTarget | .relay _ | .dropReceiver _ | .dropSlot
  | .dropPending | .announce => ()

/-- A connection that is drained while its one request is never read: the loop ends when the task of
the request has given it up. -/
theorem drain_cuts_nothing_unread :
    let cfg : Config := ⟨⟨⟨[]⟩, ⟨false, []⟩, 30, none, .system, percentDecodeStr⟩, 1, 1⟩
    let s := (Server.new .reference cfg 0).run cfg
      ([.arrive, .loop .select, .loop .next, .loop .next, .loop .next, .fire, .loop .select,
        .loop .fired, .loop (.written true), .loop .isBusy, .loop .isBusy, .loop .select,
        .task 0 unanswered, .tick 30] ++ List.replicate 5 (.task 0 unanswered) ++
        List.replicate 2 (.loop .idle))
    s.loop = .over .drained ∧ s.requests.goingAway = some 4 ∧ s.tasks.length = 1 ∧
      ∀ task ∈ s.tasks, task.facts.pending = false ∧ Ended task.facts := by
  intro cfg s
  have hrun : s.loop = .over .drained ∧ s.requests.goingAway = some 4 ∧ s.tasks.length = 1 := by
    decide +kernel
  obtain ⟨hloop, hgoing, hlength⟩ := hrun
  obtain ⟨-, hended⟩ := drain_cuts_nothing .reference cfg 0 _
  refine ⟨hloop, hgoing, hlength, (hended ?_).2 ?_⟩
  · rw [show Server.loop _ = .over .drained from hloop]
    rfl
  · rw [show List.length _ = 1 from hlength]
    decide

end Serving

end Tunnel

end Volto
