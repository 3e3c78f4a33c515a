import Volto.Tunnel.ServingSteps

/-!
# The Gate of a Connection

What a connection is allowed before and after somebody has authenticated on it. The gate is opened
once, by a request that was let in, and whoever opens it raises the allowance of request streams.
While it is closed, the loop accepts requests until a deadline, and then ends.

## Main results

* `Gate.run`: the gate and the allowance are what the tasks have done.
* `late_le_one`: how many requests are accepted after the deadline.
* `unauthenticated_bounded`: what a connection gets that does not authenticate.
-/

namespace Volto

namespace Tunnel

namespace Handler

/-! ### What a request does to the gate -/

namespace Facts

/-- Whether the request has found the gate closed and opened it. -/
def opened (facts : Facts) : ℕ :=
  if facts.marked = some true then 1 else 0

/-- How often it has raised the allowance. -/
def raises (facts : Facts) : ℕ :=
  facts.raised.toNat

end Facts

/-- What is known of a request that has got to the gate. -/
structure Marked (ctx : Context) (facts : Facts) : Prop where
  letIn : facts.marked.isSome = true → ∃ req username, facts.LetIn ctx req username
  raised : facts.raised = true → facts.marked = some true

/-- A handler that has not begun has opened nothing. -/
theorem marked_new (ctx : Context) : Marked ctx .new :=
  ⟨by rintro ⟨⟩, by rintro ⟨⟩⟩

/-- **Only a request that was let in gets to the gate.** -/
theorem marked_note {ctx : Context} {facts : Facts} (h : Marked ctx facts) {question : Question}
    (hmay : May ctx facts question) (reply : question.Reply) :
    Marked ctx (facts.note question reply) := by
  cases question with
  | readRequest deadline =>
      refine ⟨fun hmarked => ?_, h.raised⟩
      obtain ⟨req, username, hread, -⟩ := h.letIn hmarked
      rw [Facts.Read, hmay.1] at hread
      cases hread
  | mark => exact ⟨fun _ => hmay.2, fun hraised => by
      have hmarked := h.raised hraised
      rw [hmay.1] at hmarked
      cases hmarked⟩
  | admitConfiguredStreams => exact ⟨h.letIn, fun _ => hmay.1⟩
  | now | stopReceiving _ | reset _ | finish | fail _ | respond _ _ | recordAuthFailure _
  | close _ | clearFailures _ | acquire | countTunnel | claimDatagrams | lookup _ _ _
  | holdsAddress _ | connect _ _ | bind _ | abortTarget | relay _ | dropReceiver _ | dropSlot
  | dropPending | announce => exact ⟨h.letIn, h.raised⟩

/-- The allowance is raised only by whoever opened the gate. -/
theorem Marked.raises_le {ctx : Context} {facts : Facts} (h : Marked ctx facts) :
    facts.raises ≤ facts.opened := by
  rw [Facts.raises, Facts.opened]
  cases hraised : facts.raised with
  | false => exact Nat.zero_le _
  | true =>
      rw [if_pos (h.raised hraised)]
      exact Nat.le_refl 1

end Handler

namespace Serving

open Asking Handler

variable {tokio : Sync} {cfg : Config} {s s' : Server tokio} {event : Event}

/-! ### The gate -/

/-- Every task accounts for the gate. -/
theorem Tasks.marked (h : Tasks cfg s) {task : Task} (hmem : task ∈ s.tasks) :
    Marked cfg.ctx task.facts :=
  (h task hmem).invariant (marked_new cfg.ctx) fun _ _ reply hmarked hmay =>
    marked_note hmarked hmay reply

/-- **The gate is what the tasks have done to it**: it is open when one of them has opened it, and
the allowance was raised as often as they have raised it. -/
structure Gate (s : Server tokio) : Prop where
  opened : s.common.gate.toNat = Ledger.total (fun task => task.facts.opened) s.tasks
  raised : s.common.raised = Ledger.total (fun task => task.facts.raises) s.tasks

/-- A question moves the gate as it moves what its task has done to it. -/
theorem gate_asked {i : ℕ} {task : Task} {question : Question}
    (next : question.Reply → Handling Unit) (hmay : May cfg.ctx task.facts question)
    (outside : question.Reply) :
    let asked := s.asked cfg i task question next outside
    let facts := task.facts.note question (s.common.answer cfg task.streamId question outside).1
    asked.common.gate.toNat + task.facts.opened =
        s.common.gate.toNat + facts.opened ∧
      asked.common.raised + task.facts.raises = s.common.raised + facts.raises := by
  simp only [Server.asked]
  cases question with
  | mark =>
      have hzero : task.facts.opened = 0 := by
        rw [Facts.opened, hmay.1]
        rfl
      refine ⟨?_, rfl⟩
      rw [hzero]
      simp only [Common.answer]
      cases s.common.gate <;> rfl
  | admitConfiguredStreams =>
      have hzero : task.facts.raises = 0 := by
        rw [Facts.raises, hmay.2]
        rfl
      refine ⟨rfl, ?_⟩
      rw [hzero]
      rfl
  | acquire | dropSlot | dropPending | announce | now | readRequest _ | stopReceiving _ | reset _
  | finish | fail _ | respond _ _ | recordAuthFailure _ | close _ | clearFailures _ | countTunnel
  | claimDatagrams | lookup _ _ _ | holdsAddress _ | connect _ _ | bind _ | abortTarget | relay _
  | dropReceiver _ => exact ⟨rfl, rfl⟩

/-- A step of the server keeps the account of the gate. -/
theorem Gate.steps (h : Gate s) (htasks : Tasks cfg s) (hstep : Steps cfg s event s') :
    Gate s' := by
  cases hstep with
  | @asked i outside task question next hi hrest _ =>
      obtain ⟨hopened, hraised⟩ :=
        gate_asked (s := s) (i := i) next (htasks.may hi hrest) (outside question)
      have htotal := fun share : Facts → ℕ =>
        Server.total_asked next cfg share hi (outside question)
      refine ⟨?_, ?_⟩
      · have hsame := h.opened
        have hmoved := htotal Facts.opened
        omega
      · have hsame := h.raised
        have hmoved := htotal Facts.raises
        omega
  | accepted _ _ _ _ =>
      refine ⟨?_, ?_⟩
      · simp only [Server.accept, Ledger.total_concat]
        exact h.opened
      · simp only [Server.accept, Ledger.total_concat]
        exact h.raised
  | beside hbeside =>
      refine ⟨?_, ?_⟩
      · rw [hbeside.gate, hbeside.tasks]
        exact h.opened
      · rw [hbeside.raised, hbeside.tasks]
        exact h.raised

/-- **Run lemma**: the gate is accounted for in every interleaving. -/
theorem Gate.run (tokio : Sync) (cfg : Config) (dropped : UInt64) (events : List Event) :
    Gate ((Server.new tokio cfg dropped).run cfg events) :=
  Tasks.run_invariant dropped ⟨rfl, rfl⟩
    (fun s event htasks h => h.steps htasks (s.steps cfg event)) events

/-- An open gate was opened by a request. -/
theorem Gate.exists_opened (h : Gate s) (hgate : s.common.gate = true) :
    ∃ task ∈ s.tasks, task.facts.marked = some true := by
  by_contra hnone
  have hzero : Ledger.total (fun task : Task => task.facts.opened) s.tasks = 0 :=
    Ledger.total_eq_zero _ fun task hmem => if_neg fun hmarked => hnone ⟨task, hmem, hmarked⟩
  rw [← h.opened, hgate] at hzero
  cases hzero

/-- A gate that a request has opened is open. -/
theorem Gate.gate_of_opened (h : Gate s) {task : Task} (hmem : task ∈ s.tasks)
    (hmarked : task.facts.marked = some true) : s.common.gate = true := by
  obtain ⟨i, hi⟩ := List.getElem?_of_mem hmem
  have hle := Ledger.share_le_total (fun task : Task => task.facts.opened) hi
  rw [← h.opened, Facts.opened, if_pos hmarked] at hle
  cases hgate : s.common.gate with
  | true => rfl
  | false =>
      rw [hgate] at hle
      exact absurd hle (by decide)

/-- The allowance is raised once, if the gate was opened. -/
theorem Gate.raised_le (h : Gate s) (htasks : Tasks cfg s) :
    s.common.raised ≤ s.common.gate.toNat := by
  rw [h.opened, h.raised]
  refine List.sum_le_sum fun task hmem => ?_
  exact (htasks.marked hmem).raises_le

/-! ### The silence -/

/-- The loop is waiting for a request. -/
def Loop.accepting : Loop → Bool
  | .selecting _ (.accepting _) => true
  | _ => false

/-- The event of an entry accepted a request when the gate was closed and the deadline had
passed. -/
def late (cfg : Config) (entry : Server tokio × Event) : Bool :=
  !entry.1.common.gate && decide (cfg.silence ≤ entry.1.common.now) &&
    decide (entry.1.tasks.length < (entry.1.step cfg entry.2).tasks.length)

/-- The clock only goes on, and the deadline stays. -/
theorem Steps.now_le (hstep : Steps cfg s event s') :
    s.common.now ≤ s'.common.now ∧ s'.deadline = s.deadline := by
  cases hstep with
  | @asked _ _ task question _ _ _ _ => cases question <;> exact ⟨Nat.le_refl _, rfl⟩
  | accepted _ _ _ _ => exact ⟨Nat.le_refl _, rfl⟩
  | beside hbeside => exact ⟨hbeside.now, hbeside.deadline⟩

/-- The deadline is the one set at the start. -/
theorem deadline_run (tokio : Sync) (cfg : Config) (dropped : UInt64) (events : List Event) :
    ((Server.new tokio cfg dropped).run cfg events).deadline = cfg.silence :=
  History.run_invariant (P := fun s : Server tokio => s.deadline = cfg.silence)
    (fun s event h => (s.steps cfg event).now_le.2.trans h) rfl events

/-- A request is accepted where the loop waits for one, which then starts anew. -/
theorem Steps.accepting (hstep : Steps cfg s event s')
    (hmore : s.tasks.length < s'.tasks.length) :
    s.loop.accepting = true ∧ s'.loop = .top ∧ s'.common.gate = s.common.gate := by
  cases hstep with
  | asked _ _ _ =>
      rw [Server.tasks_asked, List.length_set] at hmore
      exact absurd hmore (Nat.lt_irrefl _)
  | accepted hloop _ _ _ =>
      rw [hloop]
      exact ⟨rfl, rfl, rfl⟩
  | beside hbeside =>
      rw [hbeside.tasks] at hmore
      exact absurd hmore (Nat.lt_irrefl _)

/-- A gate that is open stays open. -/
theorem Steps.gate (hstep : Steps cfg s event s') (hgate : s.common.gate = true) :
    s'.common.gate = true := by
  cases hstep with
  | @asked _ _ _ question _ _ _ _ => cases question <;> first | exact hgate | rfl
  | accepted _ _ _ _ => exact hgate
  | beside hbeside => exact hbeside.gate.trans hgate

/-- **Past the deadline the loop waits for no request**, unless it finds the gate open. -/
theorem Server.accepting_advance (hgate : s.common.gate = false)
    (hlate : s.deadline ≤ s.common.now) (hloop : s.loop.accepting = false) (move : Move) :
    (s.advance cfg move).loop.accepting = false := by
  unfold advance
  split
  · split_ifs <;> rfl
  · split_ifs
    · rfl
    · exact hloop
  · rename_i w next hsame
    rw [hsame] at hloop
    simp only
    split_ifs
    · rfl
    · exact hloop
  · rename_i idle next hsame
    cases next with
    | readGate =>
        rw [nextRequest, hgate]
        rfl
    | readClock =>
        rw [nextRequest, if_pos hlate]
        rfl
    | accepting deadline =>
        rw [hsame] at hloop
        cases hloop
  · rfl
  · rename_i idle deadline hsame
    rw [hsame] at hloop
    cases hloop
  · rename_i ok _
    cases ok <;> rfl
  · split_ifs
    · rfl
    · exact hloop
  · split_ifs <;> rfl
  · split_ifs <;> rfl
  · exact hloop

/-- Behind a closed gate and past the deadline, the loop does not go back to accepting. -/
theorem Server.accepting_step (hgate : s.common.gate = false)
    (hlate : s.deadline ≤ s.common.now) (hloop : s.loop.accepting = false) (event : Event) :
    (s.step cfg event).loop.accepting = false := by
  cases event with
  | task i outside =>
      rw [step, ask]
      split
      · exact hloop
      · split
        · exact hloop
        · split_ifs
          · exact hloop
          · exact hloop
  | loop move => exact accepting_advance hgate hlate hloop move
  | arrive =>
      rw [step]
      split_ifs
      · exact hloop
      · exact hloop
  | fire | tick _ | deliver _ | countDrop _ | recv _ => exact hloop

/-- **At most one request is accepted late.** The loop may have begun to wait for it before the
deadline; when it looks again it finds the gate open, or ends. -/
theorem late_le_one (tokio : Sync) (cfg : Config) (dropped : UInt64) (events : List Event) :
    let initial := Server.new tokio cfg dropped
    let count := (History.history (Server.step cfg) initial events).countP (late cfg)
    let s := initial.run cfg events
    count = 0 ∨ count = 1 ∧
      (s.common.gate = true ∨ cfg.silence ≤ s.common.now ∧ s.loop.accepting = false) := by
  intro initial
  induction events using List.reverseRecOn with
  | nil => exact .inl rfl
  | append_singleton events event ih =>
      simp only [Server.run, History.run_concat, History.history_concat, List.countP_append,
        List.countP_singleton] at ih ⊢
      set s := History.run (Server.step cfg) initial events with hs
      have hstep := s.steps cfg event
      have hdeadline : s.deadline = cfg.silence := deadline_run tokio cfg dropped events
      by_cases hnow : late cfg (s, event) = true
      · rw [if_pos hnow]
        rw [late, Bool.and_eq_true, Bool.and_eq_true, Bool.not_eq_true', decide_eq_true_iff,
          decide_eq_true_iff] at hnow
        obtain ⟨⟨hgate, hlate⟩, hmore⟩ := hnow
        obtain ⟨hwaiting, htop, -⟩ := hstep.accepting hmore
        rcases ih with hzero | ⟨-, hopen | ⟨-, hnone⟩⟩
        · refine .inr ⟨by rw [hzero], .inr ⟨hlate.trans hstep.now_le.1, ?_⟩⟩
          rw [htop]
          rfl
        · rw [hopen] at hgate
          cases hgate
        · rw [hwaiting] at hnone
          cases hnone
      · rw [if_neg hnow, Nat.add_zero]
        refine ih.imp_right fun ⟨hone, hafter⟩ => ⟨hone, ?_⟩
        rcases hafter with hopen | ⟨hlate, hnone⟩
        · exact .inl (hstep.gate hopen)
        · cases hgate : s.common.gate with
          | true => exact .inl (hstep.gate hgate)
          | false =>
              refine .inr ⟨hlate.trans hstep.now_le.1, ?_⟩
              exact Server.accepting_step hgate (hdeadline ▸ hlate) hnone event

/-! ### The end of a silent connection -/

/-- The loop has looked at the gate and found it closed, and has accepted no request since. -/
def Looked (cfg : Config) (initial : Server tokio) (events : List Event) : Prop :=
  ∃ front, front ++ [.loop .next] <+: events ∧ (initial.run cfg front).common.gate = false ∧
    (∃ idle, (initial.run cfg front).loop = .selecting idle .readGate) ∧
    (initial.run cfg front).tasks.length = (initial.run cfg events).tasks.length

/-- The loop goes by what it has found at the gate. -/
def Loop.byGate : Loop → Bool
  | .selecting _ .readClock | .over .silent => true
  | _ => false

/-- Whoever goes by the gate has looked at it before, and a connection ends silent past its
deadline. -/
theorem Server.byGate_advance (move : Move) (hby : (s.advance cfg move).loop.byGate = true) :
    (s.advance cfg move).tasks = s.tasks ∧
      (s.loop.byGate = true ∨ move = .next ∧ s.common.gate = false ∧
        ∃ idle, s.loop = .selecting idle .readGate) ∧
      ((s.advance cfg move).loop = .over .silent →
        s.loop = .over .silent ∨ s.deadline ≤ s.common.now) := by
  unfold advance at hby ⊢
  split at hby
  · split_ifs at hby
    · cases hby
    · cases hby
  · rename_i next hsame
    split_ifs at hby with hfired
    · cases hby
    · rw [if_neg hfired, hsame]
      rw [hsame] at hby
      exact ⟨rfl, .inl hby, by rintro ⟨⟩⟩
  · rename_i w next hsame
    simp only at hby ⊢
    split_ifs at hby with hdone
    · cases hby
    · rw [if_neg hdone, hsame]
      exact ⟨rfl, .inl hby, by rintro ⟨⟩⟩
  · rename_i idle next hsame
    simp only [hsame]
    cases next with
    | readGate =>
        rw [nextRequest] at hby ⊢
        cases hgate : s.common.gate with
        | true =>
            rw [hgate] at hby
            cases hby
        | false => exact ⟨rfl, .inr ⟨trivial, rfl, idle, rfl⟩, by rintro ⟨⟩⟩
    | readClock =>
        rw [nextRequest] at hby ⊢
        split_ifs at hby ⊢ with hlate
        · exact ⟨rfl, .inl rfl, fun _ => .inr hlate⟩
        · cases hby
    | accepting deadline =>
        rw [nextRequest] at hby
        rcases haccept : s.requests.acceptLoop s.queue with ⟨log, requests, queue⟩
        simp only [haccept] at hby
        split at hby
        · split at hby
          · cases hby
          · rw [hsame] at hby
            cases hby
        · rw [hsame] at hby
          cases hby
  · cases hby
  · rename_i idle deadline hsame
    split_ifs at hby
    · cases hby
    · rw [hsame] at hby
      cases hby
  · rename_i ok _
    cases ok <;> cases hby
  · rename_i deadline hsame
    split_ifs at hby
    · cases hby
    · rw [hsame] at hby
      cases hby
  · split_ifs at hby
    · cases hby
    · cases hby
  · split_ifs at hby
    · cases hby
    · cases hby
  · exact ⟨rfl, .inl hby, .inl⟩

/-- An event that is not a step of the loop leaves it where it is. -/
theorem Server.loop_step (hbeside : ∀ move, event ≠ .loop move) :
    (s.step cfg event).loop = s.loop ∧ (s.step cfg event).tasks.length = s.tasks.length := by
  cases event with
  | task i outside =>
      rw [step, ask]
      split
      · exact ⟨rfl, rfl⟩
      · split
        · exact ⟨rfl, rfl⟩
        · split_ifs
          · exact ⟨rfl, List.length_set ..⟩
          · exact ⟨rfl, rfl⟩
  | loop move => exact absurd rfl (hbeside move)
  | arrive =>
      rw [step]
      split_ifs
      · exact ⟨rfl, rfl⟩
      · exact ⟨rfl, rfl⟩
  | fire | tick _ | deliver _ | countDrop _ | recv _ => exact ⟨rfl, rfl⟩

/-- Where the gate ended the loop, the loop had looked at it. -/
theorem looked_run (tokio : Sync) (cfg : Config) (dropped : UInt64) (events : List Event)
    (hby : ((Server.new tokio cfg dropped).run cfg events).loop.byGate = true) :
    Looked cfg (Server.new tokio cfg dropped) events := by
  induction events using List.reverseRecOn with
  | nil => cases hby
  | append_singleton events event ih =>
      set initial := Server.new tokio cfg dropped
      have hrun : initial.run cfg (events ++ [event]) = (initial.run cfg events).step cfg event :=
        History.run_concat _ _ _ _
      have hcarry (hbefore : (initial.run cfg events).loop.byGate = true)
          (hlength : ((initial.run cfg events).step cfg event).tasks.length =
            (initial.run cfg events).tasks.length) :
          Looked cfg initial (events ++ [event]) := by
        obtain ⟨front, hfront, hgate, hloop, hsame⟩ := ih hbefore
        refine ⟨front, hfront.trans (List.prefix_append _ _), hgate, hloop, ?_⟩
        rw [hrun, hlength, hsame]
      rw [hrun] at hby
      by_cases hloop : ∃ move, event = .loop move
      · obtain ⟨move, rfl⟩ := hloop
        obtain ⟨htasks, hbefore, -⟩ := Server.byGate_advance move hby
        rcases hbefore with hbefore | ⟨rfl, hgate, hreading⟩
        · exact hcarry hbefore (congrArg List.length htasks)
        · refine ⟨events, List.prefix_refl _, hgate, hreading, ?_⟩
          rw [hrun]
          exact (congrArg List.length htasks).symm
      · obtain ⟨hsame, hlength⟩ := Server.loop_step (s := initial.run cfg events)
          fun move heq => hloop ⟨move, heq⟩
        exact hcarry (hsame ▸ hby) hlength

/-- A connection ends silent past its deadline. -/
theorem silent_run (tokio : Sync) (cfg : Config) (dropped : UInt64) (events : List Event) :
    let s := (Server.new tokio cfg dropped).run cfg events
    s.loop = .over .silent → cfg.silence ≤ s.common.now := by
  refine History.run_invariant
    (P := fun s : Server tokio => s.deadline = cfg.silence ∧
      (s.loop = .over .silent → cfg.silence ≤ s.common.now)) (fun s event h => ?_)
    ⟨rfl, by rintro ⟨⟩⟩ events |>.2
  obtain ⟨hnow, hdeadline⟩ := (s.steps cfg event).now_le
  refine ⟨hdeadline.trans h.1, fun hsilent => le_trans ?_ hnow⟩
  by_cases hloop : ∃ move, event = .loop move
  · obtain ⟨move, rfl⟩ := hloop
    have hby : (s.advance cfg move).loop.byGate = true := by
      rw [show (s.advance cfg move).loop = .over .silent from hsilent]
      rfl
    rcases (Server.byGate_advance move hby).2.2 hsilent with hbefore | hlate
    · exact h.2 hbefore
    · exact h.1 ▸ hlate
  · rw [(Server.loop_step fun move heq => hloop ⟨move, heq⟩).1] at hsilent
    exact h.2 hsilent

/-- **What a connection gets before anybody has authenticated**, whatever is interleaved. The gate
is opened by a request that was let in, and the allowance of request streams is raised at most once,
when it is open. While it is closed, at most one request is accepted after the deadline. And a
connection ends as a silent one only after the deadline, and only if its gate was closed when the
loop looked, which has accepted no request since. -/
theorem unauthenticated_bounded (tokio : Sync) (cfg : Config) (dropped : UInt64)
    (events : List Event) :
    let initial := Server.new tokio cfg dropped
    let s := initial.run cfg events
    (s.common.gate = true ↔ ∃ task ∈ s.tasks, task.facts.marked = some true) ∧
    (∀ task ∈ s.tasks, task.facts.marked.isSome = true →
      ∃ req username, task.facts.LetIn cfg.ctx req username) ∧
    s.common.raised ≤ s.common.gate.toNat ∧
    (History.history (Server.step cfg) initial events).countP (late cfg) ≤ 1 ∧
    (s.loop = .over .silent → cfg.silence ≤ s.common.now ∧ Looked cfg initial events) := by
  intro initial s
  have htasks : Tasks cfg s := Tasks.run tokio cfg dropped events
  have hgate : Gate s := Gate.run tokio cfg dropped events
  refine ⟨⟨hgate.exists_opened, ?_⟩, ?_, hgate.raised_le htasks, ?_, fun hsilent => ⟨?_, ?_⟩⟩
  · rintro ⟨task, hmem, hmarked⟩
    exact hgate.gate_of_opened hmem hmarked
  · exact fun task hmem => (htasks.marked hmem).letIn
  · rcases late_le_one tokio cfg dropped events with hzero | ⟨hone, -⟩
    · exact hzero.trans_le (Nat.zero_le 1)
    · exact hone.le
  · exact silent_run tokio cfg dropped events hsilent
  · refine looked_run tokio cfg dropped events ?_
    rw [show (initial.run cfg events).loop = .over .silent from hsilent]
    rfl

/-- The loop waits for a request when the deadline passes, accepts one, and then ends. -/
theorem unauthenticated_bounded_late :
    let cfg : Config := ⟨⟨⟨[]⟩, ⟨false, []⟩, 30, none, .system, percentDecodeStr⟩, 1, 1⟩
    let initial := Server.new .reference cfg 0
    let events : List Event := [.loop .select, .loop .next, .loop .next, .arrive, .tick 60,
      .loop .next, .loop .select, .loop .next, .loop .next]
    (History.history (Server.step cfg) initial events).countP (late cfg) = 1 ∧
      (initial.run cfg events).loop = .over .silent ∧ Looked cfg initial events := by
  intro cfg initial events
  have hsilent : (initial.run cfg events).loop = .over .silent := by decide +kernel
  obtain ⟨-, -, -, -, hend⟩ := unauthenticated_bounded .reference cfg 0 events
  exact ⟨by decide +kernel, hsilent, (hend hsilent).2⟩

end Serving

end Tunnel

end Volto
