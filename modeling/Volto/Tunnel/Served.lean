import Volto.Tunnel.ServingSteps

/-!
# What a Connection Does for Its Requests

Everything that is done for a request is called for by what is known of that request, whatever the
other requests of the connection do meanwhile, and a request that has been read is answered once.

## Main results

* `requests_keep_the_rule`: what is done, and how many requests hold a tunnel at a time.
* `requests_answered_once`: what every request gets.
-/

namespace Volto

namespace Tunnel

namespace Serving

open Asking Handler

variable {tokio : Sync} {cfg : Config} {s : Server tokio}

/-- What was known of a request when it had asked that much. -/
def knownAfter (front : List (Σ question : Question, question.Reply)) : Facts :=
  learn Facts.note .new front

/-- The last reply is known last. -/
theorem knownAfter_concat (front : List (Σ question : Question, question.Reply))
    (question : Question) (reply : question.Reply) :
    knownAfter (front ++ [⟨question, reply⟩]) = (knownAfter front).note question reply :=
  learn_concat front question reply

/-! ### The rule -/

/-- The slots held are counted task by task. -/
theorem total_slots (tasks : List Task) :
    Ledger.total (fun task => task.facts.slots) tasks =
      tasks.countP fun task => decide (task.facts.slot = .held) := by
  induction tasks with
  | nil => rfl
  | cons task tasks ih =>
      rw [Ledger.total_cons, ih, List.countP_cons, Nat.add_comm, Facts.slots]
      cases task.facts.slot <;> rfl

/-- **Every request keeps the rule, whatever is interleaved with it**: each thing a task asks for is
what the rule allows for what was then known of its own request. So a name is looked up, and an
address is dialled, only for a request that was let in, on its own target, and only if the policy
allows the port and the address and this host does not hold it. Every such request holds a slot, and
there are never more of them than the connection may have. -/
theorem requests_keep_the_rule (tokio : Sync) (cfg : Config) (dropped : UInt64)
    (events : List Event) :
    let s := (Server.new tokio cfg dropped).run cfg events
    (∀ task ∈ s.tasks, ∀ front question answer back,
      task.progress.asked = front ++ ⟨question, answer⟩ :: back →
      May cfg.ctx (knownAfter front) question) ∧
    s.tasks.countP (fun task => decide (task.facts.slot = .held)) ≤
      cfg.maxTargetsPerConn.toNat := by
  constructor
  · exact fun task hmem => (Tasks.run tokio cfg dropped events task hmem).allowed
  · have hheld := Held.run tokio cfg dropped events
    have hle := hheld.quota.slots_le
    rw [hheld.slots, total_slots] at hle
    exact hle

/-! ### Answers -/

/-- The response that an entry of a run is, with what became of it. -/
def response : (Σ question : Question, question.Reply) → Option (Answer × Option (Except Unit Unit))
  | ⟨.respond answer _, taken⟩ => some (answer, taken)
  | _ => none

/-- An entry that is a response. -/
theorem response_eq_some {entry : Σ question : Question, question.Reply} {answer : Answer}
    {taken : Option (Except Unit Unit)} (h : response entry = some (answer, taken)) :
    ∃ deadline, entry = ⟨.respond answer deadline, taken⟩ := by
  obtain ⟨question, reply⟩ := entry
  cases question with
  | respond answer' deadline =>
      obtain ⟨rfl, rfl⟩ := Prod.mk.inj (Option.some.inj h)
      exact ⟨deadline, rfl⟩
  | now | readRequest _ | stopReceiving _ | reset _ | finish | fail _ | recordAuthFailure _
  | close _ | mark | admitConfiguredStreams | clearFailures _ | acquire | countTunnel
  | claimDatagrams | lookup _ _ _ | holdsAddress _ | connect _ _ | bind _ | abortTarget | relay _
  | dropReceiver _ | dropSlot | dropPending | announce => cases h

/-- Only a response is noted as one. -/
theorem answered_note (facts : Facts) (question : Question) (reply : question.Reply) :
    response ⟨question, reply⟩ = none → (facts.note question reply).answered = facts.answered := by
  intro hnone
  cases question with
  | respond answer deadline => cases hnone
  | now | readRequest _ | stopReceiving _ | reset _ | finish | fail _ | recordAuthFailure _
  | close _ | mark | admitConfiguredStreams | clearFailures _ | acquire | countTunnel
  | claimDatagrams | lookup _ _ _ | holdsAddress _ | connect _ _ | bind _ | abortTarget | relay _
  | dropReceiver _ | dropSlot | dropPending | announce => rfl

/-- The responses of a run are the one that is known, if there is one. -/
theorem responses_eq {p : Progress Question Question.Reply Unit}
    (h : Sound Facts.note (May cfg.ctx) (fun facts _ => Settled facts) .new p) :
    ∀ front back, p.asked = front ++ back →
      front.filterMap response = (knownAfter front).answered.toList := by
  intro front
  induction front using List.reverseRecOn with
  | nil => exact fun _ _ => rfl
  | append_singleton front entry ih =>
      intro back heq
      rw [List.append_assoc] at heq
      obtain ⟨question, reply⟩ := entry
      have hmay := h.allowed front question reply back heq
      rw [List.filterMap_append, ih _ heq, knownAfter_concat]
      rcases hresponse : response ⟨question, reply⟩ with - | taken
      · rw [answered_note _ _ _ hresponse, List.filterMap_cons_none hresponse, List.filterMap_nil,
          List.append_nil]
      · obtain ⟨deadline, hentry⟩ := response_eq_some hresponse
        cases hentry
        have hnone : (knownAfter front).answered = none := hmay.1
        rw [hnone]
        rfl

/-- **A request is answered once, as it is due**: whatever is interleaved, a task gives at most one
response, and it is the one that what was known at that moment calls for. A task that is over has
answered its request, unless it could not read one or has closed the connection over its
credentials; and it holds nothing any more. -/
theorem requests_answered_once (tokio : Sync) (cfg : Config) (dropped : UInt64)
    (events : List Event) :
    ∀ task ∈ ((Server.new tokio cfg dropped).run cfg events).tasks,
      task.progress.asked.filterMap response = task.facts.answered.toList ∧
      (∀ front answer deadline taken back,
        task.progress.asked = front ++ ⟨.respond answer deadline, taken⟩ :: back →
        Due cfg.ctx (knownAfter front) answer) ∧
      (∀ value, task.progress.rest = .done value → Settled task.facts) := by
  intro task hmem
  have hsound := Tasks.run tokio cfg dropped events task hmem
  refine ⟨responses_eq hsound _ [] (List.append_nil _).symm, ?_, ?_⟩
  · intro front answer deadline taken back heq
    exact (hsound.allowed front (.respond answer deadline) taken back heq).2
  · intro value hdone
    have hprogress : task.progress = ⟨task.progress.asked, .done value⟩ := by rw [← hdone]
    rw [hprogress] at hsound
    exact hsound.ends

/-- What comes of a question when the peer sends a request and takes its answer. -/
def sending (req : Request) : (question : Question) → question.Reply
  | .readRequest _ => some (.ok req)
  | .respond _ _ => some (.ok ())
  | .now => 0
  | .claimDatagrams | .lookup _ _ _ | .connect _ _ => none
  | .recordAuthFailure _ | .mark | .acquire | .holdsAddress _ => false
  | .bind _ => .ok ()
  | .stopReceiving _ | .reset _ | .finish | .fail _ | .close _ | .admitConfiguredStreams
  | .clearFailures _ | .countTunnel | .abortTarget | .relay _ | .dropReceiver _ | .dropSlot
  | .dropPending | .announce => ()

/-- A CONNECT without a port is answered 400, and its task is then over. -/
theorem requests_answered_once_connect :
    let cfg : Config := ⟨⟨⟨[]⟩, ⟨false, []⟩, 30, none, .system, percentDecodeStr⟩, 1, 1⟩
    let req : Request := ⟨.connect, none, some (ascii "localhost"), none, none, none, []⟩
    let s := (Server.new .reference cfg 0).run cfg
      ([.arrive, .loop .select, .loop .next, .loop .next, .loop .next] ++
        List.replicate 15 (.task 0 (sending req)))
    ∃ task, s.tasks = [task] ∧
      task.progress.asked.filterMap response = task.facts.answered.toList ∧
      task.facts.answered.map (fun answered => answered.1.status) = some .badRequest := by
  intro cfg req s
  have hlength : s.tasks.length = 1 := by decide +kernel
  obtain ⟨task, htask⟩ := List.length_eq_one_iff.mp hlength
  have hstatus : s.tasks.map (fun task =>
      task.facts.answered.map fun answered => answered.1.status) = [some .badRequest] := by
    decide +kernel
  rw [htask, List.map_singleton, List.singleton_inj] at hstatus
  refine ⟨task, htask, ?_, hstatus⟩
  exact (requests_answered_once .reference cfg 0 _ task (htask ▸ List.mem_singleton_self task)).1

end Serving

end Tunnel

end Volto
